import Oil.Data.LastWrite
import Oil.Test.Generators.Machine
import Oil.Test.Generators.Parameters

namespace Oil.Test

open Oil.Data Oil.Core Program

namespace RegClasses

/-! # The function that registers the classes of a file -/

/-- What the script makes of the path of its file: the names in its templates.  They are names of
files in one directory. -/
structure FileNames where
  defFile : List Char
  defname : List Char
  encodedBasename : List Char
  isFile : '/' ∉ defFile
  isRoot : '/' ∉ defname
  identifier : IsIdentifier encodedBasename

/-- `os.path.basename` -/
def basename (path : List UInt8) : List UInt8 := path.rtakeWhile (· ≠ '/'.toUInt8)

/-- `os.path.splitext (name)[0]`, of a name of a file in a directory. -/
def splitextRoot (name : List UInt8) : List UInt8 :=
  let root := (name.rdropWhile (· ≠ '.'.toUInt8)).dropLast
  if root.all (· = '.'.toUInt8) then name else root

theorem slash_notMem_basename (path : List UInt8) : '/'.toUInt8 ∉ basename path := by
  intro member
  simpa using List.mem_rtakeWhile_imp member

theorem mem_of_mem_splitextRoot {name : List UInt8} {byte : UInt8} (member : byte ∈ splitextRoot name) :
    byte ∈ name := by
  rw [splitextRoot] at member
  split at member
  · exact member
  · exact (List.rdropWhile_prefix _ _).subset (List.mem_of_mem_dropLast member)

theorem slash_notMem_byteText {name : List UInt8} (apart : '/'.toUInt8 ∉ name) : '/' ∉ byteText name := by
  intro member
  obtain ⟨byte, inside, same⟩ := List.mem_map.mp member
  have valid : byte.toNat.isValidChar := .inl (Nat.lt_trans byte.toNat_lt (by decide))
  have number : byte.toNat = '/'.toNat := by
    rw [Char.ofNat, dif_pos valid] at same
    exact congrArg Char.toNat same
  have slash : byte = '/'.toUInt8 := UInt8.toNat_inj.mp number
  exact apart (slash ▸ inside)

/-- The names for a path. -/
def FileNames.ofPath (path : List UInt8) : FileNames where
  defFile := byteText (basename path)
  defname := byteText (splitextRoot (basename path))
  encodedBasename := (genCanonicalId (splitextRoot (basename path))).toOption.getD []
  isFile := slash_notMem_byteText (slash_notMem_basename path)
  isRoot := slash_notMem_byteText fun member => slash_notMem_basename path (mem_of_mem_splitextRoot member)
  identifier := by
    obtain ⟨id, named, valid⟩ := genCanonicalId_total (splitextRoot (basename path))
    rw [named]
    exact valid

section Text

variable (names : FileNames) (vars : TmplVars)

/-- The comment at the head of a file, and what comes right behind it. -/
def commentHead (file purpose : String) : List Char :=
  "/* \n * ".toList ++ names.defname ++ file.toList ++ names.defFile ++ purpose.toList

/-- The head of a file with one function in it: a comment of what it is for, and how the function
begins. -/
def fileHead (file purpose function : String) : List Char :=
  "/* \n * ".toList ++ names.defname ++ file.toList ++ names.defFile ++ purpose.toList ++ names.encodedBasename ++
    (function.toList ++ " ()\n\x7b\n".toList)

def registerHead : List Char :=
  fileHead names "-register-classes.c:\n *  Auto generate from "
    ("\n *  It will be rewritten next time run oil-regclasses\n *  Generate the class registration function\n */\n" ++
      "#include <oilclass.h>\n#include <inttypes.h>\nvoid ") "_register_classes"

def registerClass : List Char :=
  "\n    extern void ".toList ++ vars.clsName ++ "_ref (".toList ++ vars.paramList ++ ");\n    extern void (*".toList ++
    vars.clsName ++ ") (".toList ++ vars.paramList ++ ");\n    oil_class_register (\x22".toList ++ vars.clsName ++
    "\x22, ".toList ++ vars.clsName ++ "_ref, (void **) & ".toList ++ vars.clsName ++ ");\n".toList

def registerTail : List Char := "\n\x7d\n".toList

/-- `<defname>-register-classes.c` -/
def registerFile (registered : List TmplVars) : List Char :=
  registerHead names ++ registered.flatMap registerClass ++ registerTail

end Text

section Tokens

def refName (clsName : List Char) : List Char := clsName ++ "_ref".toList

def registerArgs (clsName : List Char) : List (List Token) :=
  [[.str clsName], [.word (refName clsName)], castTo 2 ++ [.mark '&', .word clsName]]

def registerParts (vars : TmplVars) : List Part :=
  let ref := keyword "void" :: .word (refName vars.clsName) :: opening :: paramTokens vars ++ [closing]
  let slot := keyword "void" :: opening :: .mark '*' :: .word vars.clsName :: closing :: opening ::
    paramTokens vars ++ [closing]
  [(keyword "extern" :: ref, .declares ref), (keyword "extern" :: slot, .declares slot),
    (callTokens "oil_class_register".toList (registerArgs vars.clsName),
      .calls "oil_class_register".toList (registerArgs vars.clsName))]

/-- Where the reader can be in a comment. -/
inductive InComment : Mode → Prop
  | comment : InComment .comment
  | star : InComment .star

theorem transduce_name {mode : Mode} {name : List Char} (inside : InComment mode) (noSlash : '/' ∉ name) :
    ∃ next, InComment next ∧ transduce step mode name = (next, []) := by
  have stays (mode : Mode) (c : Char) (inside : InComment mode) (other : c ≠ '/') :
      InComment (step mode c).1 ∧ (step mode c).2 = [] := by
    cases inside with
    | comment =>
        rw [step]
        split
        · exact ⟨.star, rfl⟩
        · exact ⟨.comment, rfl⟩
    | star =>
        rw [step, if_neg other]
        split
        · exact ⟨.star, rfl⟩
        · exact ⟨.comment, rfl⟩
  have others : ∀ c ∈ name, c ≠ '/' := fun c member same => noSlash (same ▸ member)
  obtain ⟨insideNext, nothing⟩ := transduce_silent stays others inside
  exact ⟨_, insideNext, Prod.ext rfl nothing⟩

theorem isPlainChar_of_isWordLetter {c : Char} (letter : isWordLetter c = true) : isPlainChar c = true := by
  rw [isPlainChar, decide_eq_true_eq]
  intro special
  have none : ['\x22', '\x5c', '?', '\n', '\r', '\x00'].all (fun c => !isWordLetter c) = true := by decide +kernel
  have other := List.all_eq_true.mp none c special
  rw [letter] at other
  contradiction

theorem plain_of_identifier {name : List Char} (identifier : IsIdentifier name) : Plain name :=
  fun c member => isPlainChar_of_isWordLetter (identifier.2 c member)

/-- No name of a file ends the comment at the head of a generated file. -/
theorem transduce_commentHead (names : FileNames) {file purpose : String} {found : List Token}
    (within : ∀ mode, InComment mode → transduce step mode file.toList = (.comment, []))
    (behind : ∀ mode, InComment mode → transduce step mode purpose.toList = (.between, found)) :
    transduce step .between (commentHead names file purpose) = (.between, found) := by
  have opened : transduce step .between "/* \n * ".toList = (.comment, []) := by decide +kernel
  obtain ⟨mode, inside, root⟩ := transduce_name .comment names.isRoot
  obtain ⟨mode', inside', defFile⟩ := transduce_name .comment names.isFile
  exact transduce_seq (transduce_seq (transduce_seq (transduce_seq opened root) (within mode inside)) defFile)
    (behind mode' inside')

theorem transduce_fileHead (names : FileNames) {file purpose function : String}
    (within : ∀ mode, InComment mode → transduce step mode file.toList = (.comment, []))
    (behind : ∀ mode, InComment mode → transduce step mode purpose.toList = (.between, [keyword "void"]))
    (letters : function.toList.all isWordLetter = true) :
    transduce step .between (fileHead names file purpose function) = (.between, [keyword "void",
      .word (names.encodedBasename ++ function.toList), opening, closing, .mark '\x7b']) := by
  have comment := transduce_commentHead names within behind
  have encoded := transduce_word (nonempty_of_identifier names.identifier) names.identifier.2
  have suffix := transduce_letters names.encodedBasename (List.all_eq_true.mp letters)
  have body : transduce step .between " ()\n\x7b\n".toList = (.between, [opening, closing, .mark '\x7b']) := by
    decide +kernel
  exact transduce_seq (transduce_seq comment encoded)
    (transduce_seq suffix (transduce_word_end (by decide +kernel) body))

theorem ofList_ne_empty {name : List Char} (nonempty : name ≠ []) : String.ofList name ≠ "" := by
  intro empty
  have same := congrArg String.toList empty
  rw [String.toList_ofList] at same
  exact nonempty same

theorem transduce_registerHead (names : FileNames) :
    transduce step .between (registerHead names) = (.between, [keyword "void",
      .word (names.encodedBasename ++ "_register_classes".toList), opening, closing, .mark '\x7b']) :=
  transduce_fileHead names (by rintro _ (_ | _) <;> decide +kernel) (by rintro _ (_ | _) <;> decide +kernel)
    (by decide +kernel)

theorem transduce_registerClass {vars : TmplVars} (spelled : vars.Spelled) :
    transduce step .between (registerClass vars) = (.between, (registerParts vars).flatMap Program.written) := by
  obtain ⟨found, complete, _⟩ := tokens_paramList spelled.paramList
  obtain ⟨mode, early, late, params, closed, rfl⟩ := transduce_closed complete
  have cls := transduce_word (nonempty_of_identifier spelled.clsName) spelled.clsName.2
  have refLetters : transduce step (.word vars.clsName) "_ref".toList = (.word (refName vars.clsName), []) :=
    transduce_letters _ (List.all_eq_true.mp (by decide +kernel))
  have opened : transduce step .between "\n    extern void ".toList = (.between, [keyword "extern", keyword "void"]) := by
    decide +kernel
  have paren : transduce step .between " (".toList = (.between, [opening]) := by decide +kernel
  have ref : transduce step (.word vars.clsName) "_ref (".toList = (.between, [.word (refName vars.clsName), opening]) := by
    rw [show "_ref (".toList = "_ref".toList ++ " (".toList by decide +kernel]
    exact transduce_seq refLetters (transduce_word_end (by decide +kernel) paren)
  have slot : transduce step .between ";\n    extern void (*".toList =
      (.between, [.mark ';', keyword "extern", keyword "void", opening, .mark '*']) := by decide +kernel
  have afterRef : transduce step mode ");\n    extern void (*".toList =
      (.between, late ++ [closing] ++ [.mark ';', keyword "extern", keyword "void", opening, .mark '*']) := by
    rw [show ");\n    extern void (*".toList = [')'] ++ ";\n    extern void (*".toList by decide +kernel]
    exact transduce_seq closed slot
  have parens : transduce step .between ") (".toList = (.between, [closing, opening]) := by decide +kernel
  have call : transduce step .between ";\n    oil_class_register (\x22".toList =
      (.str [], [.mark ';', keyword "oil_class_register", opening]) := by decide +kernel
  have afterSlot : transduce step mode ");\n    oil_class_register (\x22".toList =
      (.str [], late ++ [closing] ++ [.mark ';', keyword "oil_class_register", opening]) := by
    rw [show ");\n    oil_class_register (\x22".toList = [')'] ++ ";\n    oil_class_register (\x22".toList by
      decide +kernel]
    exact transduce_seq closed call
  have comma : transduce step .between "\x22, ".toList.tail = (.between, [.mark ',']) := by decide +kernel
  have cast : transduce step .between ", (void **) & ".toList =
      (.between, [.mark ',', opening, keyword "void", .mark '*', .mark '*', closing, .mark '&']) := by decide +kernel
  have afterName : transduce step (.word vars.clsName) "_ref, (void **) & ".toList =
      (.between, .word (refName vars.clsName) ::
        [.mark ',', opening, keyword "void", .mark '*', .mark '*', closing, .mark '&']) := by
    rw [show "_ref, (void **) & ".toList = "_ref".toList ++ ", (void **) & ".toList by decide +kernel]
    exact transduce_seq refLetters (transduce_word_end (by decide +kernel) cast)
  have ended : transduce step .between ");\n".toList = (.between, [closing, .mark ';']) := by decide +kernel
  have refs := transduce_seq (transduce_seq (transduce_seq (transduce_seq opened cls) ref) params) afterRef
  have slots := transduce_seq (transduce_seq refs cls) (transduce_word_end (by decide +kernel) parens)
  have strings := transduce_seq (transduce_seq (transduce_seq slots params) afterSlot)
    (transduce_str (plain_of_identifier spelled.clsName))
  have names := transduce_seq (transduce_seq strings (transduce_str_end (by decide +kernel) comma)) cls
  have whole := transduce_seq (transduce_seq (transduce_seq names afterName) cls)
    (transduce_word_end (by decide +kernel) ended)
  unfold registerClass
  refine whole.trans (congrArg (Prod.mk _) ?_)
  simp [registerParts, Program.written, callTokens, registerArgs, paramTokens, complete, castTo, List.intercalate,
    List.intersperse, keyword, List.replicate]

theorem registerArgs_separate (clsName : List Char) : Separate (registerArgs clsName) := by
  refine ⟨by simp [registerArgs], by simp [registerArgs], ?_, ?_⟩
  · simp [registerArgs, castTo, opening, closing, keyword, List.replicate]
  · simp only [registerArgs, List.forall_mem_cons]
    exact ⟨rfl, rfl, rfl, List.forall_mem_nil _⟩

theorem registerParts_read {vars : TmplVars} (spelled : vars.Spelled) : ∀ part ∈ registerParts vars, part.Reads := by
  obtain ⟨found, complete, apart⟩ := tokens_paramList spelled.paramList
  simp only [registerParts, paramTokens, complete, Option.getD_some, List.forall_mem_cons]
  refine ⟨⟨?_, rfl⟩, ⟨?_, rfl⟩, ⟨?_, ?_⟩, List.forall_mem_nil _⟩
  · simp [keyword, opening, closing, apart]
  · simp [keyword, opening, closing, apart]
  · simp [callTokens, registerArgs, castTo, List.intercalate, List.intersperse, opening, closing, keyword, List.replicate]
  · exact readItem_calls (registerArgs_separate _) (by decide +kernel)

/-- The text of the function tells which classes there are. -/
theorem readFunction_registerFile (names : FileNames) {registered : List TmplVars}
    (spelled : ∀ vars ∈ registered, vars.Spelled) :
    readFunction (registerFile names registered) = some (names.encodedBasename ++ "_register_classes".toList,
      (registered.flatMap registerParts).map Prod.snd) :=
  readFunction_entries (transduce_registerHead names) (fun vars member => transduce_registerClass (spelled vars member))
    (by decide +kernel) fun vars member => registerParts_read (spelled vars member)

end Tokens

section Declarations

/-- What the headers of the register file declare of what the function uses. -/
structure RegisterIncluded (headers : Headers) : Prop where
  types : ∀ base ∈ supportedBaseTypes, headers.known base.toList = true
  register : headers "oil_class_register".toList =
    some (.function [.string, .address, .slot] (some "OilClass".toList))

/-- The names in a file of definitions can be declared in one function: they are no words of C and
mean nothing to the headers, and no two things go by one name. -/
structure Declarable (headers : Headers) (function deffile : List Char) : Prop where
  own : headers.free function = true
  classes : ∀ node ∈ parse deffile,
    headers.free node.prototype.1 = true ∧ headers.free (refName node.prototype.1) = true
  params : ∀ node ∈ parse deffile,
    (∀ param ∈ node.prototype.2, headers.free param.2 = true) ∧ (node.prototype.2.map Prod.snd).Nodup
  signatures : ∀ node ∈ parse deffile, ∀ other ∈ parse deffile,
    node.prototype.1 = other.prototype.1 → node.signature = other.signature
  references : ∀ node ∈ parse deffile, ∀ other ∈ parse deffile, node.prototype.1 ≠ refName other.prototype.1
  others : ∀ node ∈ parse deffile, node.prototype.1 ≠ function ∧ refName node.prototype.1 ≠ function

def refDeclaration (node : ClassNode) : Declared :=
  ⟨refName node.prototype.1, .function (node.signature.map typeTokens)⟩

def slotDeclaration (node : ClassNode) : Declared := ⟨node.prototype.1, .slot (node.signature.map typeTokens)⟩

/-- What may be declared in the function: itself, and what it declares for a class. -/
def InRegister (function deffile : List Char) (known : Declared) : Prop :=
  known = ⟨function, .function []⟩ ∨ ∃ node ∈ parse deffile, known = refDeclaration node ∨ known = slotDeclaration node

variable {headers : Headers} {function deffile : List Char}

theorem refName_inj {clsName other : List Char} (same : refName clsName = refName other) : clsName = other :=
  List.append_cancel_right same

theorem Declarable.agree (declarable : Declarable headers function deffile) (known new : Declared)
    (isKnown : InRegister function deffile known) (isNew : InRegister function deffile new)
    (same : known.name = new.name) : known = new := by
  rcases isKnown with rfl | ⟨node, member, rfl | rfl⟩ <;> rcases isNew with rfl | ⟨other, memberOther, rfl | rfl⟩
  · rfl
  · exact absurd same.symm (declarable.others other memberOther).2
  · exact absurd same.symm (declarable.others other memberOther).1
  · exact absurd same (declarable.others node member).2
  · have signature := declarable.signatures node member other memberOther (refName_inj same)
    have name : refName node.prototype.1 = refName other.prototype.1 := same
    rw [refDeclaration, refDeclaration, signature, name]
  · exact absurd same.symm (declarable.references other memberOther node member)
  · exact absurd same (declarable.others node member).1
  · exact absurd same (declarable.references node member other memberOther)
  · have signature := declarable.signatures node member other memberOther same
    have name : node.prototype.1 = other.prototype.1 := same
    rw [slotDeclaration, slotDeclaration, signature, name]

theorem check_registerParts (included : RegisterIncluded headers) (declarable : Declarable headers function deffile)
    {vars : TmplVars} (member : vars ∈ registrations deffile) {scope : List Declared}
    (within : ∀ known ∈ scope, InRegister function deffile known) :
    ∃ after, ((registerParts vars).map Prod.snd).foldlM headers.check scope = some after ∧
      ∀ known ∈ after, InRegister function deffile known := by
  obtain ⟨node, inside, named, _, read, nonempty, listed⟩ := exists_node member
  have isRef : InRegister function deffile (refDeclaration node) := .inr ⟨node, inside, .inl rfl⟩
  have isSlot : InRegister function deffile (slotDeclaration node) := .inr ⟨node, inside, .inr rfl⟩
  have withinRef := List.forall_mem_cons.mpr ⟨isRef, within⟩
  refine ⟨slotDeclaration node :: refDeclaration node :: scope, ?_, List.forall_mem_cons.mpr ⟨isSlot, withinRef⟩⟩
  obtain ⟨free, once⟩ := declarable.params node inside
  obtain ⟨freeCls, freeRef⟩ := declarable.classes node inside
  have params : headers.params (paramTokens vars) = some (node.signature.map typeTokens) := by
    rw [read]
    exact params_intercalate nonempty listed included.types free once
  have ref : headers.declared (keyword "void" :: .word (refName vars.clsName) :: opening ::
      paramTokens vars ++ [closing]) = some (refDeclaration node) := by
    simp [Headers.declared, keyword, opening, closing, params, named, freeRef, refDeclaration]
  have slot : headers.declared (keyword "void" :: opening :: .mark '*' :: .word vars.clsName :: closing :: opening ::
      paramTokens vars ++ [closing]) = some (slotDeclaration node) := by
    simp [Headers.declared, keyword, opening, closing, params, named, freeCls, slotDeclaration]
  have admittedRef := admits_of_agree declarable.agree within isRef rfl
  have admittedSlot := admits_of_agree declarable.agree withinRef isSlot rfl
  have result : headers.result (slotDeclaration node :: refDeclaration node :: scope) "oil_class_register".toList
      (registerArgs vars.clsName) = some (some "OilClass".toList) := by
    simp only [Headers.result, included.register, registerArgs]
    refine if_pos ⟨rfl, ?_⟩
    simp [Headers.accepts, refDeclaration, slotDeclaration, named]
  simp only [registerParts, List.map_cons, List.map_nil, List.foldlM_cons, List.foldlM_nil,
    check_declares ref admittedRef, check_declares slot admittedSlot, check_calls result, Option.bind_eq_bind,
    Option.bind_some, Option.pure_def]

/-- The text is a function that a compiler takes. -/
theorem compile_registerFile (names : FileNames) (included : RegisterIncluded headers)
    (declarable : Declarable headers (names.encodedBasename ++ "_register_classes".toList) deffile) :
    compile headers (registerFile names (registrations deffile)) =
      some (names.encodedBasename ++ "_register_classes".toList,
        ((registrations deffile).flatMap registerParts).map Prod.snd) := by
  obtain ⟨_, checked, _⟩ := check_entries (fun vars member _ within =>
    check_registerParts included declarable member within)
    (List.forall_mem_cons.mpr ⟨.inl rfl, List.forall_mem_nil _⟩)
  rw [← List.map_flatMap] at checked
  exact compile_of_read (readFunction_registerFile names (registrations_spelled deffile)) declarable.own checked

end Declarations

section Running

variable {F D : Type} (symbols : Symbols F) (heaps : Nat → Heap F) {machine : Machine F D}
  {catalogue : Catalogue F D} {ht : HashTable CharPointer Nat} {given gone : List (Destroyed CharPointer Nat)}

def registerRequest (symbols : Symbols F) (clsName : List Char) : Request F D :=
  .register (some (String.ofList clsName)) (some (symbols.functions (refName clsName))) (some (symbols.slots clsName))

theorem exec_register (machine : Machine F D) (clsName : List Char) :
    exec (oilcore symbols) heaps machine (.calls "oil_class_register".toList (registerArgs clsName)) =
      (machine.reg.request (heaps machine.executed) (registerRequest symbols clsName)).map fun reg =>
        { machine with reg, executed := machine.executed + 1 } := by
  have notGet : "oil_class_register".toList ≠ "oil_class_get".toList := by decide +kernel
  simp only [exec, oilcore, if_neg notGet, if_pos, registerArgs, List.getLast?_append, List.getLast?_cons_cons,
    List.getLast?_singleton, Option.some_or, registerRequest, Registry.request, Registry.step, Option.map_map]
  rfl

theorem exec_class (kept : Registry.Kept machine.reg ht given gone)
    (represents : Registry.Represents machine.reg ht catalogue) (few : ht.stored.length < 2 ^ 30 - 1)
    (vars : TmplVars) :
    ∃ next after given gone,
      ((registerParts vars).map Prod.snd).foldlM (exec (oilcore symbols) heaps) machine = some next ∧
      Registry.Kept next.reg after given gone ∧ after.stored.length ≤ ht.stored.length + 1 ∧
      Registry.Represents next.reg after (catalogue.step (registerRequest symbols vars.clsName)) := by
  let declared : Machine F D := { machine with executed := machine.executed + 1 + 1 }
  obtain ⟨reg, served⟩ : ∃ reg, machine.reg.request (heaps declared.executed)
      (registerRequest symbols vars.clsName) = some reg := represents.request_returns kept few trivial
  obtain ⟨after, _, _, keptAfter, length, representsAfter⟩ := represents.request kept served
  refine ⟨{ declared with reg, executed := declared.executed + 1 }, after, _, _, ?_, keptAfter, length,
    representsAfter⟩
  have registered := exec_register symbols heaps declared vars.clsName
  have asked : declared.reg.request (heaps declared.executed) (registerRequest symbols vars.clsName) = some reg := served
  rw [asked, Option.map_some] at registered
  show (exec (oilcore symbols) heaps declared (.calls _ (registerArgs vars.clsName))).bind some = _
  rw [registered, Option.bind_some]

theorem exec_classes (kept : Registry.Kept machine.reg ht given gone)
    (represents : Registry.Represents machine.reg ht catalogue) (registered : List TmplVars)
    (few : ht.stored.length + registered.length < 2 ^ 30) :
    ∃ next after given gone,
      ((registered.flatMap registerParts).map Prod.snd).foldlM (exec (oilcore symbols) heaps) machine = some next ∧
      Registry.Kept next.reg after given gone ∧ after.stored.length ≤ ht.stored.length + registered.length ∧
      Registry.Represents next.reg after
        (catalogue.run (registered.map fun vars => registerRequest symbols vars.clsName)) := by
  induction registered generalizing machine catalogue ht given gone with
  | nil => exact ⟨machine, ht, given, gone, rfl, kept, Nat.le_refl _, represents⟩
  | cons vars registered ih =>
      rw [List.length_cons] at few ⊢
      obtain ⟨next, after, _, _, executed, keptNext, length, representsNext⟩ :=
        exec_class symbols heaps kept represents (by omega) vars
      obtain ⟨last, final, _, _, executedRest, keptLast, lengthLast, representsLast⟩ :=
        ih keptNext representsNext (by omega)
      refine ⟨last, final, _, _, ?_, keptLast, by omega, representsLast⟩
      rw [List.flatMap_cons, List.map_append, List.foldlM_append, executed]
      exact executedRest

end Running

section Meaning

variable {F D : Type} (symbols : Symbols F)

/-- The class a definition stands for, before it has implements or data. -/
def definedClass (clsName : List Char) : ClassMeaning F D :=
  ⟨symbols.functions (refName clsName), symbols.slots clsName, fun _ => none, false, none⟩

/-- The catalogue with these classes, and with their references in their slots. -/
def declare (catalogue : Catalogue F D) (clsNames : List (List Char)) : Catalogue F D where
  classes clsName := if clsName.toList ∈ clsNames then some (definedClass symbols clsName.toList)
    else catalogue.classes clsName
  slots := writeAll catalogue.slots
    (clsNames.map fun clsName => (symbols.slots clsName, symbols.functions (refName clsName)))

variable {symbols} {catalogue : Catalogue F D} {clsNames : List (List Char)}

theorem step_register {clsName : List Char} (nonempty : clsName ≠ []) :
    catalogue.step (registerRequest symbols clsName) =
      ⟨Function.update catalogue.classes (String.ofList clsName) (some (definedClass symbols clsName)),
        Function.update catalogue.slots (symbols.slots clsName) (symbols.functions (refName clsName))⟩ := by
  rw [registerRequest, Catalogue.step, if_neg (ofList_ne_empty nonempty)]
  rfl

theorem run_registers (nonempty : ∀ clsName ∈ clsNames, clsName ≠ []) :
    catalogue.run (clsNames.map (registerRequest symbols)) = declare symbols catalogue clsNames := by
  induction clsNames generalizing catalogue with
  | nil => rfl
  | cons first rest ih =>
      obtain ⟨now, later⟩ := List.forall_mem_cons.mp nonempty
      rw [List.map_cons, Catalogue.run, List.foldl_cons, ← Catalogue.run, ih later, step_register now]
      refine congrArg₂ Catalogue.mk (funext fun clsName => ?_) rfl
      simp only [List.mem_cons]
      by_cases isRest : clsName.toList ∈ rest
      · rw [if_pos isRest, if_pos (.inr isRest)]
      · rw [if_neg isRest]
        by_cases isFirst : clsName.toList = first
        · subst isFirst
          rw [if_pos (.inl rfl), String.ofList_toList, Function.update_self]
        · rw [if_neg (not_or.mpr ⟨isFirst, isRest⟩)]
          refine Function.update_of_ne (fun same => isFirst ?_) _ _
          rw [same, String.toList_ofList]

/-- The variables of the classes have addresses of their own. -/
def Apart (symbols : Symbols F) (clsNames : List (List Char)) : Prop :=
  ∀ clsName ∈ clsNames, ∀ other ∈ clsNames, symbols.slots clsName = symbols.slots other → clsName = other

theorem declare_slots (apart : Apart symbols clsNames) {clsName : List Char} (member : clsName ∈ clsNames) :
    (declare symbols catalogue clsNames).slots (symbols.slots clsName) = symbols.functions (refName clsName) := by
  have written : (symbols.slots clsName, symbols.functions (refName clsName)) ∈
      clsNames.map fun clsName => (symbols.slots clsName, symbols.functions (refName clsName)) :=
    List.mem_map.mpr ⟨clsName, member, rfl⟩
  obtain ⟨func, last⟩ := exists_lastWrite written
  obtain ⟨other, isListed, same⟩ := List.mem_map.mp (mem_of_lastWrite last)
  obtain ⟨slot, rfl⟩ := Prod.mk.inj same
  have same : (declare symbols catalogue clsNames).slots (symbols.slots clsName) = _ := writeAll_apply _ _ _
  rw [same, last, apart other isListed clsName member slot, Option.getD_some]

theorem declare_slots_apart {slot : Nat} (apart : ∀ clsName ∈ clsNames, symbols.slots clsName ≠ slot) :
    (declare symbols catalogue clsNames).slots slot = catalogue.slots slot := by
  refine (writeAll_apply _ _ slot).trans ?_
  cases write : lastWrite (clsNames.map fun clsName => (symbols.slots clsName, symbols.functions (refName clsName)))
      slot with
  | none => rfl
  | some func =>
      obtain ⟨clsName, member, same⟩ := List.mem_map.mp (mem_of_lastWrite write)
      exact absurd (Prod.mk.inj same).1 (apart clsName member)

variable (symbols) {reg : Registry F D} {ht : HashTable CharPointer Nat}
  {given gone : List (Destroyed CharPointer Nat)} (names : FileNames) (deffile : List Char) (heaps : Nat → Heap F)

theorem run_registerFile {headers : Headers} (included : RegisterIncluded headers)
    (declarable : Declarable headers (names.encodedBasename ++ "_register_classes".toList) deffile)
    (kept : Registry.Kept reg ht given gone) (represents : Registry.Represents reg ht catalogue)
    (few : ht.stored.length + (registrations deffile).length < 2 ^ 30) :
    ∃ items last after given gone, compile headers (registerFile names (registrations deffile)) =
        some (names.encodedBasename ++ "_register_classes".toList, items) ∧
      run (oilcore symbols) heaps reg items = some last ∧ Registry.Kept last after given gone ∧
      Registry.Represents last after (declare symbols catalogue ((registrations deffile).map TmplVars.clsName)) := by
  have spelled := registrations_spelled deffile
  have start : Registry.Kept (Machine.mk reg (fun _ => none) 0).reg ht given gone := kept
  obtain ⟨last, after, _, _, executed, keptLast, _, representsLast⟩ :=
    exec_classes symbols heaps start represents (registrations deffile) few
  have nonempty : ∀ clsName ∈ (registrations deffile).map TmplVars.clsName, clsName ≠ [] := by
    intro clsName member
    obtain ⟨vars, isRegistered, rfl⟩ := List.mem_map.mp member
    exact nonempty_of_identifier (spelled vars isRegistered).clsName
  have requests : (registrations deffile).map (fun vars => registerRequest (D := D) symbols vars.clsName) =
      ((registrations deffile).map TmplVars.clsName).map (registerRequest symbols) := by rw [List.map_map]; rfl
  rw [requests, run_registers nonempty] at representsLast
  exact ⟨_, last.reg, after, _, _, compile_registerFile names included declarable, by
    rw [run, executed, Option.map_some], keptLast, representsLast⟩

/-- For every file of definitions whose names can be declared, wherever it lies, the text in the
register file is a function that a compiler takes and that, called while the registry is not too
full, registers each class of the file, without implements and in place of any class of the name, and
puts its reference into its slot; no other class and no other slot changes. -/
theorem registers_classes (slots : Nat → F) (classDataDestructor : Bool) {fresh reg : Registry F D}
    (started : (Registry.initial slots).init classDataDestructor = some fresh)
    {earlier : List (Heap F × Request F D)} (served : fresh.serve earlier = some reg) (names : FileNames)
    (deffile : List Char) {headers : Headers} (included : RegisterIncluded headers)
    (declarable : Declarable headers (names.encodedBasename ++ "_register_classes".toList) deffile) (few : earlier.length + (registrations deffile).length < 2 ^ 30)
    (apart : Apart symbols ((registrations deffile).map TmplVars.clsName)) (heaps : Nat → Heap F) :
    ∃ items last, compile headers (registerFile names (registrations deffile)) =
        some (names.encodedBasename ++ "_register_classes".toList, items) ∧
      run (oilcore symbols) heaps reg items = some last ∧
      last.Reads (declare symbols ((Catalogue.empty slots).run (earlier.map Prod.snd))
        ((registrations deffile).map TmplVars.clsName)) ∧
      ∀ vars ∈ registrations deffile,
        last.slots (symbols.slots vars.clsName) = symbols.functions (refName vars.clsName) := by
  obtain ⟨_, _, _, keptReg, length, representsReg⟩ := Registry.Represents.reached started served
  obtain ⟨items, last, _, _, _, text, ran, keptLast, representsLast⟩ :=
    run_registerFile symbols names deffile heaps included declarable keptReg representsReg (by omega)
  have reads := representsLast.reads keptLast
  refine ⟨items, last, text, ran, reads, fun vars member => ?_⟩
  rw [reads.slots]
  exact declare_slots apart (List.mem_map_of_mem member)

/-- The definition in `oilfuncs.def`. -/
def oilfuncsDef : List Char := "void oil_copy8x8_u8 (uint8_t *d_8x8, int ds, uint8_t *s_8x8, int ss);\n".toList

/-- What `oilclass.h` and `inttypes.h` declare. -/
def oilclassHeaders : Headers := headersOf
  ([("OilClass", .type), ("oil_class_register", .function [.string, .address, .slot] (some "OilClass".toList))] ++
    supportedBaseTypes.map fun base => (base, .type))

theorem included_oilclass : RegisterIncluded oilclassHeaders := by
  constructor <;> decide +kernel

theorem oilfuncsDef_declarable : Declarable oilclassHeaders
    ((FileNames.ofPath "oilfuncs/oilfuncs.def".toUTF8.toList).encodedBasename ++ "_register_classes".toList)
    oilfuncsDef := by
  constructor <;> decide +kernel

theorem registers_classes_oilfuncs : ∃ fresh last : Registry Nat Unit, ∃ items,
    (Registry.initial fun _ => 0).init false = some fresh ∧
    compile oilclassHeaders (registerFile (FileNames.ofPath "oilfuncs/oilfuncs.def".toUTF8.toList) (registrations oilfuncsDef)) =
      some ("oilfuncs_register_classes".toList, items) ∧
    run (oilcore ⟨List.length, List.length, fun _ => 0⟩) (fun _ => ⟨fun _ => .fails, fun _ => ⟨none, 0, 0⟩⟩) fresh items =
      some last ∧ last.slots 14 = 18 := by
  have listed : (registrations oilfuncsDef).map TmplVars.clsName = ["oil_copy8x8_u8".toList] := by decide +kernel
  have few : (registrations oilfuncsDef).length = 1 := by
    have length := congrArg List.length listed
    rwa [List.length_map] at length
  have apart : Apart (F := Nat) ⟨List.length, List.length, fun _ => 0⟩
      ((registrations oilfuncsDef).map TmplVars.clsName) := by
    intro clsName member other memberOther _
    rw [listed, List.mem_singleton] at member memberOther
    rw [member, memberOther]
  obtain ⟨items, last, text, ran, _, inSlots⟩ := registers_classes (D := Unit) ⟨List.length, List.length, fun _ => 0⟩
    (fun _ => 0) false rfl (show Registry.serve _ [] = some _ from rfl)
    (FileNames.ofPath "oilfuncs/oilfuncs.def".toUTF8.toList) oilfuncsDef included_oilclass oilfuncsDef_declarable
    (by rw [few]; decide) apart
    fun _ => ⟨fun _ => .fails, fun _ => ⟨none, 0, 0⟩⟩
  have encoded : (FileNames.ofPath "oilfuncs/oilfuncs.def".toUTF8.toList).encodedBasename ++
      "_register_classes".toList = "oilfuncs_register_classes".toList := by decide +kernel
  obtain ⟨vars, member, named⟩ : ∃ vars ∈ registrations oilfuncsDef, vars.clsName = "oil_copy8x8_u8".toList := by
    have member : "oil_copy8x8_u8".toList ∈ (registrations oilfuncsDef).map TmplVars.clsName := by
      rw [listed]
      exact .head _
    exact List.mem_map.mp member
  have held := inSlots vars member
  rw [named] at held
  exact ⟨_, last, items, rfl, encoded ▸ text, ran, held⟩

end Meaning

end RegClasses

end Oil.Test
