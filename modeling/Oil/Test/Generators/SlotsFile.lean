import Oil.Test.Generators.CComments

namespace Oil.Test.RegClasses

open Oil.Data Python Program

/-! # The public function pointers

The comments in C in front of a definition go to the file that defines the function pointers.
Where no line of them is continued by a backslash, that file defines the pointers which the
registration of the classes declares, and nothing else. -/

section Text

variable (names : FileNames) (vars : TmplVars)

/-- The comment at the head of the file, up to its end. -/
def slotsComment : List Char :=
  names.defname ++ "-slots.c:\n *  Auto generate from ".toList ++ names.defFile ++
    ("\n *  It will be rewritten next time run oil-regclasses\n *  \n" ++
      " *  declares public function pointers\n ").toList

def slotsIncludes : List Char := "*/\n#include <inttypes.h>\n".toList

def slotsHead : List Char := "/* \n * ".toList ++ (slotsComment names ++ slotsIncludes)

/-- Where a class is defined. -/
def origin : List Char :=
  vars.clsName ++ ": ".toList ++ names.defFile ++ ":".toList ++ (toString vars.lineno).toList ++ " ".toList

def pointer : List Char :=
  "*/\nvoid (*".toList ++ (vars.clsName ++ (") (".toList ++ (vars.paramList ++ ");\n".toList)))

def slotsClass : List Char :=
  "\n".toList ++ (vars.comment ++ ("/* ".toList ++ (origin names vars ++ pointer vars)))

/-- `<defname>-slots.c` -/
def slotsFile (registered : List TmplVars) : List Char :=
  slotsHead names ++ (registered.flatMap (slotsClass names) ++ ['\n'])

end Text

/-! ## Reading definitions -/

/-- A backslash at the end of a line joins the next line to it, in comments too. -/
def splice : List Char → List Char
  | [] => []
  | '\x5c' :: '\n' :: rest => splice rest
  | c :: rest => c :: splice rest

/-- The definitions in a text, each with a semicolon behind it. -/
def readDefinitions (text : List Char) : Option (List (List Token)) := do
  let parts := (← tokens (splice text)).splitOn (.mark ';')
  if parts.getLast? = some [] then some parts.dropLast else none

/-- The pointer to a function that a function declares. -/
def slotDeclared : Item → Option (List Token)
  | .declares (void :: .mark '(' :: rest) => some (void :: .mark '(' :: rest)
  | _ => none

def slotTokens (vars : TmplVars) : List Token :=
  keyword "void" :: opening :: .mark '*' :: .word vars.clsName :: closing :: opening :: paramTokens vars ++ [closing]

section Splicing

variable {text front rest : List Char}

theorem splice_cons {c : Char} (plain : ¬ (c = '\x5c' ∧ text.head? = some '\n')) :
    splice (c :: text) = c :: splice text := by
  rw [splice]
  intro rest backslash newline
  exact plain ⟨backslash, by rw [newline]; rfl⟩

theorem splice_append (apart : front.getLast? ≠ some '\x5c' ∨ rest.head? ≠ some '\n') :
    splice (front ++ rest) = splice front ++ splice rest := by
  induction front using splice.induct with
  | case1 => rfl
  | case2 front ih =>
      rw [List.cons_append, List.cons_append, splice, splice, ih]
      refine apart.imp (fun other => ?_) id
      cases front with
      | nil => simp
      | cons c front => rwa [List.getLast?_cons_cons, List.getLast?_cons_cons] at other
  | case3 c front other ih =>
      have plain : ¬ (c = '\x5c' ∧ front.head? = some '\n') := by
        intro ⟨backslash, newline⟩
        obtain ⟨more, split⟩ := List.head?_eq_some_iff.mp newline
        exact other more backslash split
      cases front with
      | nil =>
          rw [List.cons_append, List.nil_append, splice_cons, splice_cons]
          · rfl
          · simp
          · intro ⟨backslash, newline⟩
            rcases apart with last | first
            · exact last (by rw [backslash]; rfl)
            · exact first newline
      | cons d front =>
          rw [List.cons_append, splice_cons, ih, splice_cons plain, List.cons_append]
          · refine apart.imp (fun last => ?_) id
            rwa [List.getLast?_cons_cons] at last
          · exact plain

theorem splice_of_plain (plain : '\x5c' ∉ text) : splice text = text := by
  induction text with
  | nil => rfl
  | cons c text ih =>
      rw [List.mem_cons, not_or] at plain
      obtain ⟨other, later⟩ := plain
      rw [splice_cons fun both => other both.1.symm, ih later]

theorem splice_plain_append (plain : '\x5c' ∉ front) : splice (front ++ rest) = front ++ splice rest := by
  rw [splice_append, splice_of_plain plain]
  exact .inl fun last => plain (List.mem_of_getLast? last)

theorem mem_of_mem_splice {c : Char} (member : c ∈ splice text) : c ∈ text := by
  induction text using splice.induct with
  | case1 => exact member
  | case2 text ih =>
      rw [splice] at member
      exact .tail _ (.tail _ (ih member))
  | case3 d text other ih =>
      rw [splice] at member
      · rcases List.mem_cons.mp member with rfl | later
        · exact .head _
        · exact .tail _ (ih later)
      · exact other

theorem splice_flatMap {β : Type} {parts : List β} {text : β → List Char}
    (ends : ∀ part ∈ parts, (text part).getLast? ≠ some '\x5c') (rest : List Char) :
    splice (parts.flatMap text ++ rest) = (parts.flatMap fun part => splice (text part)) ++ splice rest := by
  induction parts with
  | nil => rfl
  | cons part parts ih =>
      obtain ⟨now, later⟩ := List.forall_mem_cons.mp ends
      rw [List.flatMap_cons, List.flatMap_cons, List.append_assoc, splice_append (.inl now), ih later, List.append_assoc]

end Splicing

/-! ## The text of the file -/

section Slots

variable {names : FileNames} {vars : TmplVars}

theorem backslash_notMem_word {name : List Char} (letters : ∀ c ∈ name, isWordLetter c = true) : '\x5c' ∉ name :=
  fun member => absurd (letters _ member) (by decide)

theorem slash_notMem_word {name : List Char} (letters : ∀ c ∈ name, isWordLetter c = true) : '/' ∉ name :=
  fun member => absurd (letters _ member) (by decide)

/-- A text without slashes in a comment, and the end of the comment. -/
theorem transduce_rest {inner behind : List Char} {found : List Token} (noSlash : '/' ∉ inner)
    (ends : ∀ mode, InComment mode → transduce step mode behind = (.between, found)) :
    transduce step .comment (splice inner ++ behind) = (.between, found) := by
  obtain ⟨mode, inside, reads⟩ := transduce_name .comment fun member => noSlash (mem_of_mem_splice member)
  exact transduce_seq reads (ends mode inside)

theorem slash_notMem_slotsComment (names : FileNames) : '/' ∉ slotsComment names := by
  have file : '/' ∉ "-slots.c:\n *  Auto generate from ".toList := by decide +kernel
  have purpose : '/' ∉ ("\n *  It will be rewritten next time run oil-regclasses\n *  \n" ++
      " *  declares public function pointers\n ").toList := by decide +kernel
  rw [slotsComment, List.mem_append, List.mem_append, List.mem_append, not_or, not_or, not_or]
  exact ⟨⟨⟨names.isRoot, file⟩, names.isFile⟩, purpose⟩

theorem splice_slotsHead (names : FileNames) :
    splice (slotsHead names) = "/* \n * ".toList ++ (splice (slotsComment names) ++ slotsIncludes) := by
  have plain : '\x5c' ∉ "/* \n * ".toList := by decide +kernel
  have same : splice slotsIncludes = slotsIncludes := by decide +kernel
  have apart : slotsIncludes.head? ≠ some '\n' := by decide +kernel
  have inner : splice (slotsComment names ++ slotsIncludes) = splice (slotsComment names) ++ slotsIncludes := by
    rw [splice_append (.inr apart), same]
  exact (splice_plain_append plain).trans (congrArg _ inner)

theorem transduce_slotsHead (names : FileNames) :
    transduce step .between (splice (slotsHead names)) = (.between, []) := by
  have opened : transduce step .between "/* \n * ".toList = (.comment, []) := by decide +kernel
  have ends (mode : Mode) (inside : InComment mode) : transduce step mode slotsIncludes = (.between, []) := by
    cases inside <;> decide +kernel
  rw [splice_slotsHead]
  exact transduce_seq opened (transduce_rest (slash_notMem_slotsComment names) ends)

theorem transduce_pointer (spelled : vars.Spelled) {mode : Mode} (inside : InComment mode) :
    transduce step mode (pointer vars) = (.between, slotTokens vars ++ [.mark ';']) := by
  obtain ⟨found, complete, _⟩ := tokens_paramList spelled.paramList
  obtain ⟨after, early, late, params, closed, rfl⟩ := transduce_closed complete
  have opened : transduce step mode "*/\nvoid (*".toList = (.between, [keyword "void", opening, .mark '*']) := by
    cases inside <;> decide +kernel
  have cls := transduce_word (nonempty_of_identifier spelled.clsName) spelled.clsName.2
  have parens : transduce step .between ") (".toList = (.between, [closing, opening]) := by decide +kernel
  have semicolon : transduce step .between ";\n".toList = (.between, [.mark ';']) := by decide +kernel
  have ended : transduce step after ");\n".toList = (.between, late ++ [closing] ++ [.mark ';']) := by
    rw [show ");\n".toList = [')'] ++ ";\n".toList by decide +kernel]
    exact transduce_seq closed semicolon
  have list := transduce_seq params ended
  have named := transduce_seq parens list
  have name : transduce step .between (vars.clsName ++ (") (".toList ++ (vars.paramList ++ ");\n".toList))) = _ :=
    transduce_seq cls (transduce_word_end (by simp; decide) named)
  refine (transduce_seq opened name).trans (congrArg (Prod.mk _) ?_)
  simp [slotTokens, paramTokens, complete]

theorem slash_notMem_origin (spelled : vars.Spelled) : '/' ∉ origin names vars := by
  have file : '/' ∉ ": ".toList := by decide +kernel
  have line : '/' ∉ ":".toList := by decide +kernel
  have blank : '/' ∉ " ".toList := by decide +kernel
  have cls := slash_notMem_word spelled.clsName.2
  have lineno := slash_notMem_word (isWord_number vars.lineno)
  exact List.not_mem_append (List.not_mem_append (List.not_mem_append (List.not_mem_append (List.not_mem_append cls file)
    names.isFile) line) lineno) blank

theorem splice_pointer (spelled : vars.Spelled) : splice (pointer vars) = pointer vars := by
  have opens : '\x5c' ∉ "*/\nvoid (*".toList := by decide +kernel
  have parens : '\x5c' ∉ ") (".toList := by decide +kernel
  have ends : '\x5c' ∉ ");\n".toList := by decide +kernel
  have cls := backslash_notMem_word spelled.clsName.2
  have params : '\x5c' ∉ vars.paramList := fun member => absurd (spelled.paramList _ member) (by decide)
  apply splice_of_plain
  have rest := List.not_mem_append parens (List.not_mem_append params ends)
  exact List.not_mem_append opens (List.not_mem_append cls rest)

/-- What begins with a slash or a star does not begin a line. -/
theorem begun_append {front rest : List Char} {c : Char} (first : front.head? = some c) (other : c ≠ '\n') :
    (front ++ rest).head? ≠ some '\n' := by
  rw [List.head?_append, first, Option.some_or]
  exact fun same => other (Option.some.inj same)

theorem pointer_begun (vars : TmplVars) : (pointer vars).head? ≠ some '\n' := by
  have first : "*/\nvoid (*".toList.head? = some '*' := by decide +kernel
  exact begun_append first (by decide)

theorem splice_slotsClass (spelled : vars.Spelled) (whole : splice vars.comment = vars.comment) :
    splice (slotsClass names vars) =
      "\n".toList ++ (vars.comment ++ ("/* ".toList ++ (splice (origin names vars) ++ pointer vars))) := by
  have newline : '\x5c' ∉ "\n".toList := by decide +kernel
  have plain : '\x5c' ∉ "/* ".toList := by decide +kernel
  have slash : "/* ".toList.head? = some '/' := by decide +kernel
  rw [slotsClass, splice_plain_append newline, splice_append (.inr (begun_append slash (by decide))), whole,
    splice_plain_append plain, splice_append (.inr (pointer_begun vars)), splice_pointer spelled]

/-- Whatever comment it has, a class is one definition. -/
theorem transduce_slotsClass (spelled : vars.Spelled) (passed : Passed vars.comment)
    (whole : splice vars.comment = vars.comment) :
    transduce step .between (splice (slotsClass names vars)) = (.between, slotTokens vars ++ [.mark ';']) := by
  have newline : transduce step .between "\n".toList = (.between, []) := by decide +kernel
  obtain ⟨mode, outside, comment⟩ := passed .between (.inl rfl)
  have opened : transduce step mode "/* ".toList = (.comment, []) := by
    rcases outside with rfl | rfl <;> decide +kernel
  have named : transduce step .comment (splice (origin names vars) ++ pointer vars) = _ :=
    transduce_rest (slash_notMem_origin spelled) fun _ inside => transduce_pointer spelled inside
  rw [splice_slotsClass spelled whole]
  have reads := transduce_seq newline (transduce_seq comment (transduce_seq opened named))
  exact reads

theorem ended_append {front rest : List Char} (ended : rest.getLast? = some '\n') :
    (front ++ rest).getLast? = some '\n' := by
  rw [List.getLast?_append, ended, Option.some_or]

theorem slotsHead_ended (names : FileNames) : (slotsHead names).getLast? = some '\n' := by
  have ended : slotsIncludes.getLast? = some '\n' := by decide +kernel
  exact ended_append (ended_append ended)

theorem slotsClass_ended (names : FileNames) (vars : TmplVars) : (slotsClass names vars).getLast? = some '\n' := by
  have ended : ");\n".toList.getLast? = some '\n' := by decide +kernel
  have pointerEnded : (pointer vars).getLast? = some '\n' :=
    ended_append (ended_append (ended_append (ended_append ended)))
  exact ended_append (ended_append (ended_append (ended_append pointerEnded)))

theorem splice_slotsFile (names : FileNames) (registered : List TmplVars) :
    splice (slotsFile names registered) =
      splice (slotsHead names) ++ ((registered.flatMap fun vars => splice (slotsClass names vars)) ++ ['\n']) := by
  have newline : '\n' ≠ '\x5c' := by decide
  have head : (slotsHead names).getLast? ≠ some '\x5c' := by
    rw [slotsHead_ended]
    exact fun same => newline (Option.some.inj same)
  have each : ∀ vars ∈ registered, (slotsClass names vars).getLast? ≠ some '\x5c' := by
    intro vars _
    rw [slotsClass_ended]
    exact fun same => newline (Option.some.inj same)
  rw [slotsFile, splice_append (.inl head), splice_flatMap each]
  rfl

theorem readDefinitions_slotsFile (names : FileNames) {registered : List TmplVars}
    (each : ∀ vars ∈ registered, vars.Spelled ∧ Passed vars.comment ∧ splice vars.comment = vars.comment) :
    readDefinitions (slotsFile names registered) = some (registered.map slotTokens) := by
  have classes : transduce step .between (registered.flatMap fun vars => splice (slotsClass names vars)) =
      (.between, registered.flatMap fun vars => slotTokens vars ++ [.mark ';']) :=
    transduce_flatMap fun vars member =>
      let ⟨spelled, passed, whole⟩ := each vars member
      transduce_slotsClass spelled passed whole
  have newline : transduce step .between ['\n'] = (.between, []) := by decide +kernel
  have whole : transduce step .between (splice (slotsFile names registered)) =
      (.between, (registered.map slotTokens).flatMap fun read => read ++ [.mark ';']) := by
    rw [splice_slotsFile, List.flatMap_map]
    refine (transduce_seq (transduce_slotsHead names) (transduce_seq classes newline)).trans ?_
    simp
  have complete : tokens (splice (slotsFile names registered)) =
      some ((registered.map slotTokens).flatMap fun read => read ++ [.mark ';']) := by
    rw [tokens, whole]
  have apart : ∀ read ∈ registered.map slotTokens, Token.mark ';' ∉ read := by
    refine List.forall_mem_map.mpr fun vars member => ?_
    obtain ⟨found, complete, apart⟩ := tokens_paramList (each vars member).1.paramList
    simp [slotTokens, paramTokens, complete, keyword, opening, closing, apart]
  rw [readDefinitions, complete]
  simp only [Option.bind_eq_bind, Option.bind_some, splitOn_terminated apart, List.getLast?_append,
    List.getLast?_singleton, Option.some_or, ↓reduceIte, List.dropLast_concat]

end Slots

theorem slotDeclared_registerParts (registered : List TmplVars) :
    ((registered.flatMap registerParts).map Prod.snd).filterMap slotDeclared = registered.map slotTokens := by
  induction registered with
  | nil => rfl
  | cons vars registered ih =>
      have first : ((registerParts vars).map Prod.snd).filterMap slotDeclared = [slotTokens vars] := rfl
      rw [List.flatMap_cons, List.map_append, List.filterMap_append, first, ih]
      rfl

/-- The file of the function pointers defines those that the registration of the classes declares,
as it declares them and in the same order, whatever comments of whole lines are in front of the
definitions. -/
theorem slots_as_registered (names : FileNames) (deffile : List Char)
    (whole : ∀ vars ∈ registrations deffile, splice vars.comment = vars.comment) :
    ∃ items, readFunction (registerFile names (registrations deffile)) =
        some (names.encodedBasename ++ "_register_classes".toList, items) ∧
      readDefinitions (slotsFile names (registrations deffile)) = some (items.filterMap slotDeclared) ∧
      items.filterMap slotDeclared = (registrations deffile).map slotTokens := by
  have spelled := registrations_spelled deffile
  have declared := slotDeclared_registerParts (registrations deffile)
  refine ⟨_, readFunction_registerFile names spelled, ?_, declared⟩
  rw [declared]
  refine readDefinitions_slotsFile names fun vars member => ⟨spelled vars member, ?_, whole vars member⟩
  exact registrations_passed deffile vars member

/-- A definition with two comments, the first of which C takes to be open. -/
def commentedDef : List Char := "/*/\n/* int x; */\n".toList ++ oilfuncsDef

theorem slots_as_registered_commented : ∃ items,
    readFunction (registerFile (FileNames.ofPath "oilfuncs/oilfuncs.def".toUTF8.toList) (registrations commentedDef)) =
      some ("oilfuncs_register_classes".toList, items) ∧
    readDefinitions (slotsFile (FileNames.ofPath "oilfuncs/oilfuncs.def".toUTF8.toList) (registrations commentedDef)) =
      some (items.filterMap slotDeclared) ∧
    (items.filterMap slotDeclared).length = 1 := by
  have comments : (registrations commentedDef).map TmplVars.comment = ["/*/\n/* int x; */\n".toList] := by decide +kernel
  have whole : ∀ vars ∈ registrations commentedDef, splice vars.comment = vars.comment := by
    intro vars member
    have same : vars.comment ∈ ["/*/\n/* int x; */\n".toList] := comments ▸ List.mem_map_of_mem member
    rw [List.mem_singleton.mp same]
    decide +kernel
  have encoded : (FileNames.ofPath "oilfuncs/oilfuncs.def".toUTF8.toList).encodedBasename ++
      "_register_classes".toList = "oilfuncs_register_classes".toList := by decide +kernel
  obtain ⟨items, text, defined, slots⟩ := slots_as_registered (FileNames.ofPath "oilfuncs/oilfuncs.def".toUTF8.toList)
    commentedDef whole
  have few : (registrations commentedDef).length = 1 := by
    have length := congrArg List.length comments
    rwa [List.length_map] at length
  exact ⟨items, encoded ▸ text, defined, by rw [slots, List.length_map, few]⟩

/-- A comment with a line that goes on in the next one can end before its end. -/
example : (readDefinitions (slotsFile (FileNames.ofPath "f.def".toUTF8.toList)
    (registrations "/* *\x5c\n/ int x; /* */\nvoid f (int n);\n".toList))).map List.head? =
      some (some [keyword "int", keyword "x"]) := by decide +kernel

end Oil.Test.RegClasses
