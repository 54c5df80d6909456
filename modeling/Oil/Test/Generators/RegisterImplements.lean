import Oil.Test.Generators.Machine
import Oil.Test.Generators.RegImpls

namespace Oil.Test

open Oil.Data Oil.Core Program

namespace RegImpls

/-! # The function `oil-regimpls` writes

A dictionary is gone through in an order of Python's own, so the text is a function of the
lists that this gives. -/

def header (name : List Char) : List Char :=
  "#include <oilcore.h>\nvoid ".toList ++ name ++ "_register_implements ()\n\x7b\n    OilClass *cls;\n".toList

def tail : List Char := "\n\x7d\n".toList

def genImpl (i : List Char) (registration : Registration) : List Char :=
  "\n    extern void ".toList ++ registration.2 ++ " ();\n    oil_class_add_implement (cls, \x22".toList ++ i ++
    "\x22, (void *) ".toList ++ registration.2 ++ ", ".toList ++ registration.1 ++ ");\n".toList

def genClass (funcls : List Char) (impls : List (List Char × Registration)) : List Char :=
  "\n    cls = oil_class_get (\x22".toList ++ funcls ++ "\x22);".toList ++
    impls.flatMap fun entry => genImpl entry.1 entry.2

/-- What `gen` writes to `output`. -/
def gen (name : List Char) (ini : List (List Char × List (List Char × Registration))) : List Char :=
  header name ++ (ini.flatMap fun entry => genClass entry.1 entry.2) ++ tail

/-- The lists are the dictionary, gone through in some order. -/
def Iterates (ini : Ini) (listed : List (List Char × List (List Char × Registration))) : Prop :=
  ∃ shuffled, ini.entries.Perm shuffled ∧
    List.Forall₂ (fun entry funcls => funcls.1 = entry.1 ∧ entry.2.entries.Perm funcls.2) shuffled listed

/-- What `oilcore.h` declares of what the function uses. -/
structure Included (headers : Headers) : Prop where
  oilClass : headers "OilClass".toList = some .type
  get : headers "oil_class_get".toList = some (.function [.string] (some "OilClass".toList))
  add : headers "oil_class_add_implement".toList =
    some (.function [.pointer "OilClass".toList, .string, .address, .flags] none)
  cls : headers.free "cls".toList = true

/-- What flags are written with: there are no comments and no directives among them. -/
def isFlagChar (c : Char) : Bool := RegClasses.isWordLetter c || c ∈ [' ', '\t', '(', ')', '|']

/-- The names and flags of a registration can stand where the function has them. -/
structure Spelled (headers : Headers) (i : List Char) (registration : Registration) : Prop where
  implName : Plain i
  func : headers.free registration.2 = true
  notCls : registration.2 ≠ "cls".toList
  flagChars : ∀ c ∈ registration.1, isFlagChar c = true
  flags : ∃ read, tokens registration.1 = some read ∧ isFlags headers true read = true

def WellSpelled (headers : Headers) (ini : Ini) : Prop :=
  ∀ entry ∈ ini.entries, Plain entry.1 ∧
    ∀ i registration, (i, registration) ∈ entry.2.entries → Spelled headers i registration

def flagTokens (registration : Registration) : List Token := (tokens registration.1).getD []

section Text

def declaration : Part :=
  ([keyword "OilClass", .mark '*', keyword "cls"], .declares [keyword "OilClass", .mark '*', keyword "cls"])

def getArgs (funcls : List Char) : List (List Token) := [[.str funcls]]

def addArgs (i : List Char) (registration : Registration) : List (List Token) :=
  [[keyword "cls"], [.str i], castTo 1 ++ [.word registration.2], flagTokens registration]

def classPart (funcls : List Char) : Part :=
  (keyword "cls" :: .mark '=' :: callTokens "oil_class_get".toList (getArgs funcls),
    .assigns "cls".toList "oil_class_get".toList (getArgs funcls))

def implParts (i : List Char) (registration : Registration) : List Part :=
  [([keyword "extern", keyword "void", .word registration.2, opening, closing],
      .declares [keyword "void", .word registration.2, opening, closing]),
    (callTokens "oil_class_add_implement".toList (addArgs i registration),
      .calls "oil_class_add_implement".toList (addArgs i registration))]

def parts (ini : List (List Char × List (List Char × Registration))) : List Part :=
  declaration :: ini.flatMap fun entry =>
    classPart entry.1 :: entry.2.flatMap fun impl => implParts impl.1 impl.2

variable {headers : Headers} {i funcls : List Char} {registration : Registration}

theorem Spelled.identifier (spelled : Spelled headers i registration) : IsIdentifier registration.2 :=
  identifier_of_free spelled.func

theorem transduce_genImpl (spelled : Spelled headers i registration) :
    transduce step .between (genImpl i registration) = (.between, (implParts i registration).flatMap written) := by
  obtain ⟨found, complete, _⟩ := spelled.flags
  obtain ⟨mode, early, late, flags, closed, rfl⟩ := transduce_closed complete
  have opened : transduce step .between "\n    extern void ".toList =
      (.between, [keyword "extern", keyword "void"]) := by decide +kernel
  have func := transduce_word (nonempty_of_identifier spelled.identifier) spelled.identifier.2
  have declared : transduce step .between " ();\n    oil_class_add_implement (cls, \x22".toList =
      (.str [], [opening, closing, .mark ';', keyword "oil_class_add_implement", opening,
        keyword "cls", .mark ',']) := by decide +kernel
  have quoted : transduce step .between "\x22, (void *) ".toList.tail =
      (.between, [.mark ',', opening, keyword "void", .mark '*', closing]) := by decide +kernel
  have cast : transduce step .between ", ".toList = (.between, [.mark ',']) := by decide +kernel
  have semicolon : transduce step .between ";\n".toList = (.between, [.mark ';']) := by decide +kernel
  have ended : transduce step mode ");\n".toList = (.between, late ++ [closing] ++ [.mark ';']) := by
    rw [show ");\n".toList = [')'] ++ ";\n".toList by decide +kernel]
    exact transduce_seq closed semicolon
  have declares := transduce_seq (transduce_seq opened func) (transduce_word_end (by decide +kernel) declared)
  have names := transduce_seq (transduce_seq declares (transduce_str spelled.implName))
    (transduce_str_end (by decide +kernel) quoted)
  have passes := transduce_seq (transduce_seq names func) (transduce_word_end (by decide +kernel) cast)
  have whole := transduce_seq (transduce_seq passes flags) ended
  unfold genImpl
  refine whole.trans (congrArg (Prod.mk _) ?_)
  simp [implParts, written, callTokens, addArgs, flagTokens, complete, castTo, List.intercalate, List.intersperse,
    keyword]

theorem transduce_genClass (plain : Plain funcls) {impls : List (List Char × Registration)}
    (spelled : ∀ impl ∈ impls, Spelled headers impl.1 impl.2) :
    transduce step .between (genClass funcls impls) =
      (.between, (classPart funcls :: impls.flatMap fun impl => implParts impl.1 impl.2).flatMap written) := by
  have opened : transduce step .between "\n    cls = oil_class_get (\x22".toList =
      (.str [], [keyword "cls", .mark '=', keyword "oil_class_get", opening]) := by decide +kernel
  have closed : transduce step .between "\x22);".toList.tail = (.between, [closing, .mark ';']) := by decide +kernel
  have impls := transduce_flatMap fun impl member => transduce_genImpl (spelled impl member)
  have gets := transduce_seq (transduce_seq opened (transduce_str plain)) (transduce_str_end (by decide +kernel) closed)
  unfold genClass
  refine (transduce_seq gets impls).trans (congrArg (Prod.mk _) ?_)
  rw [List.flatMap_cons, List.flatMap_assoc]
  rfl

variable {ini : Ini} {listed : List (List Char × List (List Char × Registration))}

def ListSpelled (headers : Headers) (listed : List (List Char × List (List Char × Registration))) : Prop :=
  ∀ entry ∈ listed, Plain entry.1 ∧ ∀ impl ∈ entry.2, Spelled headers impl.1 impl.2

theorem Spelled.isFlags_flagTokens (spelled : Spelled headers i registration) :
    isFlags headers true (flagTokens registration) = true := by
  obtain ⟨found, complete, flags⟩ := spelled.flags
  rwa [flagTokens, complete, Option.getD_some]

theorem addArgs_separate (spelled : Spelled headers i registration) : Separate (addArgs i registration) := by
  have filled := isFlags_ne_nil spelled.isFlags_flagTokens
  obtain ⟨nested, commas, _⟩ := isFlags_argument spelled.isFlags_flagTokens
  refine ⟨by simp [addArgs], by simp [addArgs, filled], ?_, ?_⟩
  · simp only [addArgs, List.forall_mem_cons]
    refine ⟨by simp [keyword], by simp, by simp [castTo, opening, closing, keyword], commas,
      List.forall_mem_nil _⟩
  · simp only [addArgs, List.forall_mem_cons]
    refine ⟨rfl, rfl, rfl, nested, List.forall_mem_nil _⟩

theorem getArgs_separate (funcls : List Char) : Separate (getArgs funcls) :=
  ⟨by simp [getArgs], by simp [getArgs], by simp [getArgs], by simp [getArgs]; rfl⟩

theorem parts_read (spelled : ListSpelled headers listed) :
    ∀ part ∈ parts listed, part.Reads := by
  intro part member
  rcases List.mem_cons.mp member with rfl | member
  · exact ⟨by decide +kernel, rfl⟩
  obtain ⟨entry, isListed, member⟩ := List.mem_flatMap.mp member
  rcases List.mem_cons.mp member with rfl | member
  · refine ⟨?_, readItem_assigns (getArgs_separate _) _⟩
    simp [classPart, callTokens, getArgs, opening, closing, keyword]
  obtain ⟨impl, isImpl, member⟩ := List.mem_flatMap.mp member
  have spelled := (spelled entry isListed).2 impl isImpl
  rcases List.mem_cons.mp member with rfl | member
  · refine ⟨?_, rfl⟩
    simp [opening, closing, keyword]
  · obtain rfl := List.mem_singleton.mp member
    refine ⟨?_, readItem_calls (addArgs_separate spelled) (by decide +kernel)⟩
    obtain ⟨_, _, semicolons⟩ := isFlags_argument spelled.isFlags_flagTokens
    simp [callTokens, addArgs, castTo, List.intercalate, List.intersperse, opening, closing,
      keyword, semicolons]

theorem tokens_gen (spelled : ListSpelled headers listed) {name : List Char} (identifier : IsIdentifier name) :
    tokens (gen name listed) = some ([keyword "void", .word (name ++ "_register_implements".toList), opening, closing,
      .mark '\x7b'] ++ (parts listed).flatMap written ++ [.mark '\x7d']) := by
  have nonempty : name ≠ [] := nonempty_of_identifier identifier
  have opened : transduce step .between "#include <oilcore.h>\nvoid ".toList =
      (.between, [keyword "void"]) := by decide +kernel
  have suffix : transduce step (.word name) "_register_implements".toList =
      (.word (name ++ "_register_implements".toList), []) :=
    transduce_letters name (List.all_eq_true.mp (by decide +kernel))
  have declared : transduce step .between " ()\n\x7b\n    OilClass *cls;\n".toList =
      (.between, [opening, closing, .mark '\x7b'] ++ written declaration) := by decide +kernel
  have ended : transduce step .between tail = (.between, [.mark '\x7d']) := by decide +kernel
  have named : transduce step (.word name) "_register_implements ()\n\x7b\n    OilClass *cls;\n".toList =
      (.between, .word (name ++ "_register_implements".toList) ::
        ([opening, closing, .mark '\x7b'] ++ written declaration)) := by
    rw [show "_register_implements ()\n\x7b\n    OilClass *cls;\n".toList =
      "_register_implements".toList ++ " ()\n\x7b\n    OilClass *cls;\n".toList by decide +kernel]
    exact transduce_seq suffix (transduce_word_end (by decide +kernel) declared)
  have classes := transduce_flatMap fun entry isListed =>
    transduce_genClass (spelled entry isListed).1 (spelled entry isListed).2
  have heads := transduce_seq (transduce_seq opened (transduce_word nonempty identifier.2)) named
  have whole : transduce step .between (gen name listed) = _ := transduce_seq (transduce_seq heads classes) ended
  rw [tokens, whole]
  simp only [parts, List.flatMap_cons, List.flatMap_assoc, List.append_assoc, List.cons_append, List.nil_append]

/-- The text of the function tells what is to be registered. -/
theorem readFunction_gen (spelled : ListSpelled headers listed) {name : List Char} (identifier : IsIdentifier name) :
    readFunction (gen name listed) =
      some (name ++ "_register_implements".toList, (parts listed).map Prod.snd) :=
  readFunction_of_tokens (tokens_gen spelled identifier) (parts_read spelled)

def clsDeclared : Declared := ⟨"cls".toList, .pointer "OilClass".toList⟩

/-- What may be declared in the function: its variable, and functions. -/
def InFunction : Declared → Prop := Besides clsDeclared (.function [])

/-- The names declared so far, with the variable among them. -/
structure Scoped (scope : List Declared) : Prop where
  cls : clsDeclared ∈ scope
  within : ∀ known ∈ scope, InFunction known

theorem check_classPart (included : Included headers) {scope : List Declared} (inScope : Scoped scope)
    (funcls : List Char) : headers.check scope (classPart funcls).2 = some scope := by
  simp only [classPart, getArgs, Headers.check, Headers.result, included.get]
  exact if_pos inScope.cls

theorem check_implParts (included : Included headers) (spelled : Spelled headers i registration)
    {scope : List Declared} (inScope : Scoped scope) :
    ∃ after, ((implParts i registration).map Prod.snd).foldlM headers.check scope = some after ∧ Scoped after := by
  let func : Declared := ⟨registration.2, .function []⟩
  have isNew : InFunction func := .inr ⟨spelled.notCls, rfl⟩
  refine ⟨func :: scope, ?_, .tail _ inScope.cls, List.forall_mem_cons.mpr ⟨isNew, inScope.within⟩⟩
  have declared : headers.declared [keyword "void", .word registration.2, opening, closing] = some func := by
    simp [Headers.declared, Headers.params, keyword, opening, closing, spelled.func, func]
  have admitted : admits scope func = true := admits_of_agree Besides.agree inScope.within isNew rfl
  have cls : headers.accepts (func :: scope) (.pointer "OilClass".toList) [keyword "cls"] = true :=
    decide_eq_true (.tail _ inScope.cls)
  have address : headers.accepts (func :: scope) .address (castTo 1 ++ [.word registration.2]) = true := by
    simp [Headers.accepts, func]
  have flags : headers.accepts (func :: scope) .flags (flagTokens registration) = true := spelled.isFlags_flagTokens
  have result : headers.result (func :: scope) "oil_class_add_implement".toList (addArgs i registration) = some none := by
    simp only [Headers.result, included.add, addArgs]
    refine if_pos ⟨rfl, ?_⟩
    simp only [List.zip_cons_cons, List.zip_nil_right, List.all_cons, cls, address, flags]
    rfl
  simp only [implParts, List.map_cons, List.map_nil, List.foldlM_cons, List.foldlM_nil,
    check_declares declared admitted, check_calls result, Option.bind_eq_bind, Option.bind_some, Option.pure_def]

theorem check_genClass (included : Included headers) {impls : List (List Char × Registration)}
    (spelled : ∀ impl ∈ impls, Spelled headers impl.1 impl.2) {scope : List Declared} (inScope : Scoped scope) :
    ∃ after, ((classPart funcls :: impls.flatMap fun impl => implParts impl.1 impl.2).map Prod.snd).foldlM
      headers.check scope = some after ∧ Scoped after := by
  obtain ⟨after, checked, kept⟩ := check_entries (fun impl member _ inScope =>
    check_implParts included (spelled impl member) inScope) inScope
  refine ⟨after, ?_, kept⟩
  rw [List.map_cons, List.map_flatMap, List.foldlM_cons, check_classPart included inScope]
  exact checked

/-- The text is a function that a compiler takes. -/
theorem compile_gen (included : Included headers) (spelled : ListSpelled headers listed) {name : List Char}
    (identifier : IsIdentifier name) (free : headers.free (name ++ "_register_implements".toList) = true) :
    compile headers (gen name listed) = some (name ++ "_register_implements".toList, (parts listed).map Prod.snd) := by
  have long : name ++ "_register_implements".toList ≠ "cls".toList := by
    intro same
    have length := congrArg List.length same
    rw [List.length_append, show "_register_implements".toList.length = 20 by decide +kernel,
      show "cls".toList.length = 3 by decide +kernel] at length
    omega
  have isFunction : InFunction ⟨name ++ "_register_implements".toList, .function []⟩ := .inr ⟨long, rfl⟩
  have start : Scoped [clsDeclared, ⟨name ++ "_register_implements".toList, .function []⟩] :=
    ⟨.head _, List.forall_mem_cons.mpr ⟨.inl rfl, List.forall_mem_cons.mpr ⟨isFunction, List.forall_mem_nil _⟩⟩⟩
  have declared : headers.declared [keyword "OilClass", .mark '*', keyword "cls"] = some clsDeclared := by
    have both : (headers "OilClass".toList = some .type && headers.free "cls".toList) = true := by
      rw [included.oilClass, included.cls]
      rfl
    exact if_pos both
  have admitted : admits [⟨name ++ "_register_implements".toList, .function []⟩] clsDeclared = true := by
    simp only [admits, List.all_cons, List.all_nil, Bool.and_true, Bool.or_eq_true, decide_eq_true_eq]
    exact .inl long
  obtain ⟨after, checked, _⟩ := check_entries (fun entry member _ inScope =>
    check_genClass included (spelled entry member).2 inScope) start
  have whole : ((parts listed).map Prod.snd).foldlM headers.check
      [⟨name ++ "_register_implements".toList, .function []⟩] = some after := by
    rw [parts, List.map_cons, List.map_flatMap, List.foldlM_cons, declaration, check_declares declared admitted]
    exact checked
  exact compile_of_read (readFunction_gen spelled identifier) free whole

end Text

section Running

variable {F D : Type} {symbols : Symbols F} {heaps : Nat → Heap F} {machine : Machine F D}
  {catalogue : Catalogue F D} {ht : HashTable CharPointer Nat}
  {given gone : List (Destroyed CharPointer Nat)} {cls : Nat} {funcls : List Char}

/-- What the function asks of the registry for one implement. -/
def addRequest (symbols : Symbols F) (funcls : List Char) (impl : List Char × Registration) : Request F D :=
  .implement (some (String.ofList funcls)) (.add (some (String.ofList impl.1)) (some (symbols.functions impl.2.2))
    (symbols.value (flagTokens impl.2)))

def Granting (heaps : Nat → Heap F) : Prop := ∀ n size, 0 < size → (heaps n).realloc size ≠ .fails

theorem exec_impl (kept : Registry.Kept machine.reg ht given gone)
    (represents : Registry.Represents machine.reg ht catalogue) (granting : Granting heaps)
    (pointer : machine.pointers "cls".toList = some cls)
    (got : machine.reg.get (some (String.ofList funcls)) = some cls) (impl : List Char × Registration) :
    ∃ next, ((implParts impl.1 impl.2).map Prod.snd).foldlM (exec (oilcore symbols) heaps) machine = some next ∧
      next.pointers = machine.pointers ∧ Registry.Kept next.reg ht given gone ∧
      Registry.Represents next.reg ht (catalogue.step (addRequest symbols funcls impl)) := by
  let declared : Machine F D := { machine with executed := machine.executed + 1 }
  have granted : OilClass.Call.Granted (heaps declared.executed) (.add (some (String.ofList impl.1))
      (some (symbols.functions impl.2.2)) (symbols.value (flagTokens impl.2))) := granting _
  obtain ⟨after, served⟩ := represents.implement_returns kept (String.ofList funcls) granted
  obtain ⟨keptAfter, representsAfter⟩ := represents.implement kept served
  rw [Registry.request, got, Option.bind_some] at served
  have pointed : declared.pointers "cls".toList = some cls := pointer
  have stepped : declared.reg.step _ = some after := served
  refine ⟨{ declared with reg := after, executed := declared.executed + 1 }, ?_, rfl, keptAfter, representsAfter⟩
  have added : exec (oilcore symbols) heaps declared (.calls "oil_class_add_implement".toList (addArgs impl.1 impl.2)) =
      some { declared with reg := after, executed := declared.executed + 1 } := by
    rw [addArgs, keyword, exec_add pointed, stepped, Option.map_some]
  show (exec (oilcore symbols) heaps declared (.calls _ (addArgs impl.1 impl.2))).bind some = _
  rw [added, Option.bind_some]

theorem exec_impls (symbols : Symbols F) (kept : Registry.Kept machine.reg ht given gone)
    (represents : Registry.Represents machine.reg ht catalogue) (granting : Granting heaps)
    (pointer : machine.pointers "cls".toList = some cls)
    (got : machine.reg.get (some (String.ofList funcls)) = some cls) (impls : List (List Char × Registration)) :
    ∃ next, ((impls.flatMap fun impl => implParts impl.1 impl.2).map Prod.snd).foldlM (exec (oilcore symbols) heaps) machine =
        some next ∧ Registry.Kept next.reg ht given gone ∧
      Registry.Represents next.reg ht (catalogue.run (impls.map (addRequest symbols funcls))) := by
  induction impls generalizing machine catalogue with
  | nil => exact ⟨machine, rfl, kept, represents⟩
  | cons impl impls ih =>
      obtain ⟨next, executed, pointers, keptNext, representsNext⟩ :=
        exec_impl kept represents granting pointer got impl
      obtain ⟨last, executedRest, keptLast, representsLast⟩ :=
        ih keptNext representsNext (pointers ▸ pointer) ((kept.get_congr keptNext _).trans got)
      refine ⟨last, ?_, keptLast, representsLast⟩
      rw [List.flatMap_cons, List.map_append, List.foldlM_append, executed]
      exact executedRest

theorem exec_classes (symbols : Symbols F) (kept : Registry.Kept machine.reg ht given gone)
    (represents : Registry.Represents machine.reg ht catalogue) (granting : Granting heaps)
    (listed : List (List Char × List (List Char × Registration))) :
    ∃ next, ((listed.flatMap fun entry => classPart entry.1 ::
        entry.2.flatMap fun impl => implParts impl.1 impl.2).map Prod.snd).foldlM (exec (oilcore symbols) heaps) machine =
        some next ∧ Registry.Kept next.reg ht given gone ∧
      Registry.Represents next.reg ht
        (catalogue.run (listed.flatMap fun entry => entry.2.map (addRequest symbols entry.1))) := by
  induction listed generalizing machine catalogue with
  | nil => exact ⟨machine, rfl, kept, represents⟩
  | cons entry listed ih =>
      obtain ⟨cls, got⟩ : ∃ cls, machine.reg.get (some (String.ofList entry.1)) = some cls := by
        rcases kept.get_cases (String.ofList entry.1) with ⟨node, _, _, got⟩ | ⟨_, got⟩
        · exact ⟨_, got⟩
        · exact ⟨_, got⟩
      let found : Machine F D :=
        { machine with
          pointers := Function.update machine.pointers "cls".toList (some cls)
          executed := machine.executed + 1 }
      have pointer : found.pointers "cls".toList = some cls :=
        Function.update_self "cls".toList (some cls) machine.pointers
      have keptFound : Registry.Kept found.reg ht given gone := kept
      have representsFound : Registry.Represents found.reg ht catalogue := represents
      obtain ⟨next, executed, keptNext, representsNext⟩ :=
        exec_impls symbols keptFound representsFound granting pointer got entry.2
      obtain ⟨last, executedRest, keptLast, representsLast⟩ := ih keptNext representsNext
      refine ⟨last, ?_, keptLast, ?_⟩
      · have fetched : exec (oilcore symbols) heaps machine (classPart entry.1).2 = some found := exec_get got
        rw [List.flatMap_cons, List.map_append, List.foldlM_append, List.map_cons, List.foldlM_cons, fetched]
        simp only [Option.bind_eq_bind, Option.bind_some, executed]
        exact executedRest
      · rwa [List.flatMap_cons, Catalogue.run, List.foldl_append]

end Running

section Order

variable {F D : Type} {symbols : Symbols F} {catalogue : Catalogue F D} {ini : Ini}
  {listed : List (List Char × List (List Char × Registration))}

/-- The implements a dictionary stands for. -/
def implementsOf (symbols : Symbols F) (ini : Ini) (clsName implName : String) : Option (F × Nat) :=
  (ini.get clsName.toList implName.toList).map fun registration =>
    (symbols.functions registration.2, symbols.value (flagTokens registration))

/-- What is registered by a list of implements. -/
def extras (symbols : Symbols F) :
    List (List Char × List Char × Registration) → (clsName implName : String) → Option (F × Nat)
  | [], _, _ => none
  | (cls, impl, registration) :: rest, clsName, implName =>
      (extras symbols rest clsName implName).or
        (if clsName = String.ofList cls ∧ implName = String.ofList impl then
          some (symbols.functions registration.2, symbols.value (flagTokens registration))
        else none)

theorem run_adds (adds : List (List Char × List Char × Registration)) :
    catalogue.run (adds.map fun add => addRequest symbols add.1 add.2) = catalogue.enrich (extras symbols adds) := by
  induction adds generalizing catalogue with
  | nil => exact Catalogue.enrich_nothing.symm
  | cons add adds ih =>
      obtain ⟨cls, impl, registration⟩ := add
      rw [List.map_cons, Catalogue.run, List.foldl_cons, ← Catalogue.run, ih, addRequest, Catalogue.step_add,
        Catalogue.enrich_enrich]
      rfl

theorem extras_own {adds : List (List Char × List Char × Registration)} {clsName implName : String}
    {value : F × Nat} (own : ∀ add ∈ adds, ini.get add.1 add.2.1 = some add.2.2)
    (found : extras symbols adds clsName implName = some value) :
    implementsOf symbols ini clsName implName = some value := by
  induction adds with
  | nil => contradiction
  | cons add adds ih =>
      obtain ⟨cls, impl, registration⟩ := add
      rw [extras, Option.or_eq_some_iff] at found
      rcases found with later | ⟨_, now⟩
      · exact ih (fun other member => own other (.tail _ member)) later
      · obtain ⟨⟨rfl, rfl⟩, meant⟩ := (Option.ite_none_right_eq_some).mp now
        rw [implementsOf, String.toList_ofList, String.toList_ofList, own _ (.head _), Option.map_some, meant]

theorem extras_isSome (symbols : Symbols F) {adds : List (List Char × List Char × Registration)} {cls impl : List Char}
    {registration : Registration} (member : (cls, impl, registration) ∈ adds) :
    (extras symbols adds (String.ofList cls) (String.ofList impl)).isSome = true := by
  induction adds with
  | nil => contradiction
  | cons add adds ih =>
      obtain ⟨cls', impl', registration'⟩ := add
      rw [extras, Option.isSome_or, Bool.or_eq_true]
      rcases List.mem_cons.mp member with same | later
      · obtain ⟨rfl, rfl, rfl⟩ : cls = cls' ∧ impl = impl' ∧ registration = registration' := by
          simpa only [Prod.mk.injEq] using same
        exact .inr (by simp)
      · exact .inl (ih later)

/-- No two of the implements are for one name, so their order does not matter. -/
theorem extras_eq {adds : List (List Char × List Char × Registration)}
    (same : ∀ add, add ∈ adds ↔ ini.get add.1 add.2.1 = some add.2.2) :
    extras symbols adds = implementsOf symbols ini := by
  funext clsName implName
  refine Option.ext fun value => ⟨extras_own fun add => (same add).mp, fun meant => ?_⟩
  obtain ⟨registration, got, _⟩ := Option.map_eq_some_iff.mp meant
  have member : (clsName.toList, implName.toList, registration) ∈ adds := (same _).mpr got
  obtain ⟨other, found⟩ := Option.isSome_iff_exists.mp (extras_isSome symbols member)
  rw [String.ofList_toList, String.ofList_toList] at found
  obtain rfl := Option.some.inj ((extras_own (fun add => (same add).mp) found).symm.trans meant)
  exact found

theorem mem_listed (iterates : Iterates ini listed) (cls impl : List Char) (registration : Registration) :
    (cls, impl, registration) ∈ (listed.flatMap fun entry => entry.2.map fun add => (entry.1, add)) ↔
      ini.get cls impl = some registration := by
  obtain ⟨shuffled, order, each⟩ := iterates
  have inListed : (∃ entry ∈ listed, cls = entry.1 ∧ (impl, registration) ∈ entry.2) ↔
      ∃ entry ∈ shuffled, cls = entry.1 ∧ (impl, registration) ∈ entry.2.entries := by
    constructor
    · rintro ⟨entry, member, rfl, inside⟩
      obtain ⟨i, bound, rfl⟩ := List.getElem_of_mem member
      have pair := List.forall₂_iff_get.mp each
      obtain ⟨name, impls⟩ := pair.2 i (pair.1 ▸ bound) bound
      exact ⟨_, List.getElem_mem (pair.1 ▸ bound), name, impls.mem_iff.mpr inside⟩
    · rintro ⟨entry, member, rfl, inside⟩
      obtain ⟨i, bound, rfl⟩ := List.getElem_of_mem member
      have pair := List.forall₂_iff_get.mp each
      obtain ⟨name, impls⟩ := pair.2 i bound (pair.1 ▸ bound)
      exact ⟨_, List.getElem_mem (pair.1 ▸ bound), name.symm, impls.mem_iff.mp inside⟩
  have flat : (cls, impl, registration) ∈ (listed.flatMap fun entry => entry.2.map fun add => (entry.1, add)) ↔
      ∃ entry ∈ listed, cls = entry.1 ∧ (impl, registration) ∈ entry.2 := by
    simp only [List.mem_flatMap, List.mem_map, Prod.mk.injEq]
    constructor
    · rintro ⟨entry, member, add, inside, rfl, rfl⟩
      exact ⟨entry, member, rfl, inside⟩
    · rintro ⟨entry, member, rfl, inside⟩
      exact ⟨entry, member, _, inside, rfl, rfl⟩
  rw [flat, inListed, Ini.get]
  constructor
  · rintro ⟨entry, member, rfl, inside⟩
    rw [KeyedMap.mem_entries_lookup .ofEq (order.mem_iff.mpr member), Option.bind_some]
    exact KeyedMap.mem_entries_lookup .ofEq inside
  · intro got
    obtain ⟨funcls, found, bound⟩ := Option.bind_eq_some_iff.mp got
    exact ⟨(cls, funcls), order.mem_iff.mp (KeyedMap.mem_of_lookup found), rfl, KeyedMap.mem_of_lookup bound⟩

theorem listSpelled {headers : Headers} (iterates : Iterates ini listed) (spelled : WellSpelled headers ini) :
    ListSpelled headers listed := by
  obtain ⟨shuffled, order, each⟩ := iterates
  intro entry member
  obtain ⟨i, bound, rfl⟩ := List.getElem_of_mem member
  have pair := List.forall₂_iff_get.mp each
  obtain ⟨name, impls⟩ := pair.2 i (pair.1 ▸ bound) bound
  obtain ⟨plain, all⟩ := spelled _ (order.mem_iff.mpr (List.getElem_mem (pair.1 ▸ bound)))
  exact ⟨name ▸ plain, fun impl inside => all impl.1 impl.2 (impls.mem_iff.mpr inside)⟩

theorem run_gen {reg : Registry F D} {ht : HashTable CharPointer Nat} {given gone : List (Destroyed CharPointer Nat)}
    (kept : Registry.Kept reg ht given gone) (represents : Registry.Represents reg ht catalogue)
    {headers : Headers} (included : Included headers) (spelled : WellSpelled headers ini)
    (iterates : Iterates ini listed) {name : List Char} (identifier : IsIdentifier name)
    (free : headers.free (name ++ "_register_implements".toList) = true)
    (symbols : Symbols F) {heaps : Nat → Heap F} (granting : Granting heaps) :
    ∃ items last, compile headers (gen name listed) = some (name ++ "_register_implements".toList, items) ∧
      run (oilcore symbols) heaps reg items = some last ∧ Registry.Kept last ht given gone ∧
      Registry.Represents last ht (catalogue.enrich (implementsOf symbols ini)) := by
  let declared : Machine F D := ⟨reg, fun _ => none, 1⟩
  have keptDeclared : Registry.Kept declared.reg ht given gone := kept
  obtain ⟨last, executed, keptLast, representsLast⟩ :=
    exec_classes symbols keptDeclared represents granting listed
  refine ⟨_, last.reg, compile_gen included (listSpelled iterates spelled) identifier free, ?_, keptLast, ?_⟩
  · have ran : ((parts listed).map Prod.snd).foldlM (exec (oilcore symbols) heaps) ⟨reg, fun _ => none, 0⟩ = some last :=
      executed
    rw [run, ran, Option.map_some]
  · have adds : (listed.flatMap fun entry => entry.2.map (addRequest (D := D) symbols entry.1)) =
        (listed.flatMap fun entry => entry.2.map fun add => (entry.1, add)).map
          fun add => addRequest symbols add.1 add.2 := by
      simp only [List.map_flatMap, List.map_map]
      rfl
    rwa [adds, run_adds, extras_eq fun add => mem_listed iterates add.1 add.2.1 add.2.2] at representsLast

/-- For every dictionary of names and flags that can be spelled in C, in whatever order it is gone
through, the text `gen` writes is a function that a compiler takes and that, called at any time and
granted its memory, gives each registered class of the dictionary all its implements, with their
functions and flags, and changes nothing else. -/
theorem registers_dictionary (slots : Nat → F) (classDataDestructor : Bool) {fresh reg : Registry F D}
    (started : (Registry.initial slots).init classDataDestructor = some fresh)
    {earlier : List (Heap F × Request F D)} (served : fresh.serve earlier = some reg) {headers : Headers}
    (included : Included headers) (spelled : WellSpelled headers ini) (iterates : Iterates ini listed)
    {name : List Char} (identifier : IsIdentifier name)
    (free : headers.free (name ++ "_register_implements".toList) = true)
    (symbols : Symbols F) {heaps : Nat → Heap F} (granting : Granting heaps) :
    ∃ items last, compile headers (gen name listed) = some (name ++ "_register_implements".toList, items) ∧
      run (oilcore symbols) heaps reg items = some last ∧
      last.Reads (((Catalogue.empty slots).run (earlier.map Prod.snd)).enrich (implementsOf symbols ini)) := by
  obtain ⟨_, _, _, keptReg, _, representsReg⟩ := Registry.Represents.reached started served
  obtain ⟨items, last, text, ran, keptLast, representsLast⟩ :=
    run_gen keptReg representsReg included spelled iterates identifier free symbols granting
  exact ⟨items, last, text, ran, representsLast.reads keptLast⟩

/-- What `oilcore.h` declares. -/
def oilcoreHeaders : Headers := headersOf
  [("OilClass", .type), ("oil_class_get", .function [.string] (some "OilClass".toList)),
    ("oil_class_add_implement", .function [.pointer "OilClass".toList, .string, .address, .flags] none),
    ("OIL_FLAG", .flag), ("OIL_FLAGBIT_GS2F", .bit), ("OIL_FLAGBIT_i386_MMX", .bit)]

theorem included_oilcore : Included oilcoreHeaders := by
  constructor <;> decide +kernel

def mmxRegistration : Registration := ("OIL_FLAG (OIL_FLAGBIT_i386_MMX)".toList, "oil_copy8x8_u8_mmx".toList)

/-- The implements for a processor with MMX. -/
def mmxIni : Ini :=
  KeyedMap.empty.insert "oil_copy8x8_u8".toList (KeyedMap.empty.insert "mmx".toList mmxRegistration)

def mmxListed : List (List Char × List (List Char × Registration)) :=
  [("oil_copy8x8_u8".toList, [("mmx".toList, mmxRegistration)])]

theorem mmx_spelled : WellSpelled oilcoreHeaders mmxIni := by
  intro entry member
  obtain rfl := List.mem_singleton.mp member
  refine ⟨by decide +kernel, fun i other inside => ?_⟩
  obtain ⟨rfl, rfl⟩ := Prod.mk.inj (List.mem_singleton.mp inside)
  exact ⟨by decide +kernel, by decide +kernel, by decide +kernel, List.all_eq_true.mp (by decide +kernel),
    [keyword "OIL_FLAG", opening, keyword "OIL_FLAGBIT_i386_MMX", closing], by decide +kernel, by decide +kernel⟩

theorem mmx_iterates : Iterates mmxIni mmxListed := ⟨_, .refl _, .cons ⟨rfl, .refl _⟩ .nil⟩

theorem registers_dictionary_mmx : ∃ fresh reg last : Registry Nat Unit, ∃ items cls record,
    (Registry.initial fun _ => 0).init false = some fresh ∧
    fresh.serve [(⟨fun _ => .moves, fun _ => ⟨none, 0, 0⟩⟩, .register (some "oil_copy8x8_u8") (some 7) (some 4))] =
      some reg ∧
    compile oilcoreHeaders (gen "oilfuncs".toList mmxListed) =
      some ("oilfuncs".toList ++ "_register_implements".toList, items) ∧
    run (oilcore ⟨List.length, List.length, fun read => 2 ^ read.length⟩) (fun _ => ⟨fun _ => .moves, fun _ => ⟨none, 0, 0⟩⟩)
      reg items = some last ∧
    last.get (some "oil_copy8x8_u8") = some cls ∧ last.classes cls = some record ∧
    record.cls.implementsGet (some "mmx") = some (18, 16) := by
  have identifier : IsIdentifier "oilfuncs".toList := ⟨by decide +kernel, List.all_eq_true.mp (by decide +kernel)⟩
  have granting : Granting (F := Nat) fun _ => ⟨fun _ => .moves, fun _ => ⟨none, 0, 0⟩⟩ := by simp [Granting]
  obtain ⟨items, last, text, ran, reads⟩ := registers_dictionary (D := Unit) (fun _ => 0) false rfl
    (show Registry.serve _ [(⟨fun _ => .moves, fun _ => ⟨none, 0, 0⟩⟩,
      .register (some "oil_copy8x8_u8") (some 7) (some 4))] = some _ from rfl)
    included_oilcore mmx_spelled mmx_iterates identifier (by decide +kernel)
    ⟨List.length, List.length, fun read => 2 ^ read.length⟩ granting
  obtain ⟨cls, record, got, _, found, _, _, _, implements⟩ := reads.present "oil_copy8x8_u8" _ rfl
  refine ⟨_, _, last, items, cls, record, rfl, rfl, text, ran, got, found, ?_⟩
  rw [implements]
  decide +kernel

end Order

end RegImpls

end Oil.Test
