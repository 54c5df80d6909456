import Oil.Test.Generators.CanonicalIds
import Oil.Test.Generators.Marshals
import Oil.Test.Numerals

namespace Oil.Test.RegClasses

open Oil.Data Python Matcher

/-! # The words in a registration

What the patterns capture as names are identifiers, so whatever the templates are filled with can
stand where they have it. -/

section Patterns

variable {name other : String} {holds : List Char → Prop} {item : Matcher} {subject : List Char} {m : Captures}

theorem isWordLetter_of_isLetter {c : Char} (letter : isLetter c = true) : isWordLetter c = true := by
  rw [isWordLetter, letter, Bool.true_or]

theorem consumes_word : Consumes IsIdentifier word := by
  refine (consumes_char.seq consumes_all).mono ?_
  rintro text ⟨_, ends, rfl, ⟨c, letter, rfl⟩, all⟩
  exact ⟨letter, List.forall_mem_cons.mpr ⟨isWordLetter_of_isLetter letter, all⟩⟩

theorem captured_other (inner : Captured name holds item) (different : name ≠ other) :
    Captured name holds (group other item) :=
  inner.group fun same => absurd same different

theorem captured_qual (different : name ≠ "qual") : Captured name holds qual :=
  captured_other (captured_word.seq (captured_plus.seq captured_word).star) different

theorem captured_starsep (different : name ≠ "star") : Captured name holds starsep :=
  (captured_many.seq ((captured_other (captured_char.seq (captured_many.seq captured_char).star) different).seq
    captured_many)).alt captured_plus

theorem captured_func_name : Captured "func_name" IsIdentifier prototypePattern :=
  captured_many.seq ((((captured_qual (by decide)).seq captured_plus).opt.seq
    ((captured_other captured_word (by decide)).seq (captured_starsep (by decide)))).opt.seq
    ((captured_word.group fun _ => consumes_word).seq (captured_many.seq (captured_char.seq
      ((captured_other captured_many (by decide)).seq (captured_char.seq (captured_many.seq
        ((captured_char.seq captured_many).opt.seq captured_dollar))))))))

theorem captured_arg : Captured "arg" IsIdentifier parameterPattern :=
  captured_many.seq (((captured_qual (by decide)).seq captured_plus).opt.seq
    ((captured_other captured_word (by decide)).seq ((captured_starsep (by decide)).seq
      ((captured_word.group fun _ => consumes_word).seq (captured_many.seq captured_dollar)))))

theorem captured_value : Captured "value" IsIdentifier instruction :=
  captured_many.seq (captured_char.seq ((captured_other captured_word (by decide)).seq
    (captured_plus.seq (captured_word.group fun _ => consumes_word))))

theorem binds_func_name : Binds "func_name" prototypePattern := (Binds.group _ _).before.behind.behind

theorem binds_arg : Binds "arg" parameterPattern := (Binds.group _ _).before.behind.behind.behind.behind

theorem binds_value : Binds "value" instruction := (Binds.group _ _).behind.behind.behind.behind

theorem identifier_of_captured {matcher : Matcher} (captured : Captured name IsIdentifier matcher)
    (binds : Binds name matcher) (matched : matcher.firstMatch subject = some m) :
    IsIdentifier ((m.named name).getD []) := by
  obtain ⟨text, known⟩ := binds.named matched
  rw [known, Option.getD_some]
  exact captured.named matched known

end Patterns

section Prototypes

variable {aParam type arg prototype clsName : List Char} {params : List (List Char × List Char)}

theorem parseParameter_arg (parsed : parseParameter aParam = .ok (type, arg)) : IsIdentifier arg := by
  unfold parseParameter at parsed
  split at parsed
  case h_1 => contradiction
  case h_2 m matched =>
    dsimp only at parsed
    split_ifs at parsed
    obtain ⟨_, rfl⟩ := Prod.mk.inj (Except.ok.inj parsed)
    exact identifier_of_captured captured_arg binds_arg matched

theorem parsePrototype_words (parsed : parsePrototype prototype = .ok (clsName, params)) :
    IsIdentifier clsName ∧ ∀ param ∈ params, param.1 ∈ parameterTypes ∧ IsIdentifier param.2 := by
  unfold parsePrototype at parsed
  split at parsed
  case h_1 => contradiction
  case h_2 m matched =>
    split_ifs at parsed
    · contradiction
    · simp only [bind, Except.bind, pure, Except.pure] at parsed
      split at parsed
      case h_1 => contradiction
      case h_2 accepted mapped =>
        obtain ⟨rfl, rfl⟩ := Prod.mk.inj (Except.ok.inj parsed)
        refine ⟨identifier_of_captured captured_func_name binds_func_name matched, fun param member => ?_⟩
        obtain ⟨_, _, one⟩ := (mapM_ok mapped).2 param member
        exact ⟨mem_of_parseParameter one, parseParameter_arg one⟩

end Prototypes

section Comments

variable {seqNode : SeqNode} {line : List Char} {lineno : Nat} {inside : Inside}

/-- The values in the comments gathered so far are identifiers. -/
def SeqNode.Named (seqNode : SeqNode) : Prop :=
  ∀ key value, seqNode.comment.lookup key = some value → IsIdentifier value

theorem SeqNode.named_empty : SeqNode.Named {} := fun key value known => by
  simp [KeyedMap.lookup, KeyedMap.empty] at known

theorem parseComment_named (named : seqNode.Named) (comment : List Char) : (parseComment seqNode comment).Named := by
  rw [parseComment]
  have each : ∀ m ∈ (comment.splitOn '\n').filterMap fun line => instruction.firstMatch line,
      IsIdentifier ((m.named "value").getD []) := by
    intro m member
    obtain ⟨_, _, matched⟩ := List.mem_filterMap.mp member
    exact identifier_of_captured captured_value binds_value matched
  generalize ((comment.splitOn '\n').filterMap fun line => instruction.firstMatch line) = found at each
  induction found generalizing seqNode with
  | nil => exact named
  | cons m found ih =>
      obtain ⟨now, later⟩ := List.forall_mem_cons.mp each
      have inserted : SeqNode.Named { seqNode with
          comment := seqNode.comment.insert ((m.named "key").getD []) ((m.named "value").getD []) } := by
        intro key value known
        rw [KeyedMap.lookup_insert .ofEq] at known
        split at known
        · exact Option.some.inj known ▸ now
        · exact named key value known
      exact ih inserted later

theorem readCComment_named (named : seqNode.Named) (block line : List Char) :
    (readCComment seqNode block line).2.Named := by
  unfold readCComment
  split <;> exact named

theorem readLine_named (named : seqNode.Named) :
    (readLine lineno seqNode line).2.1.Named ∧
      ∀ node, (readLine lineno seqNode line).2.2 = some node → node.comments.Named := by
  unfold readLine
  split_ifs
  · exact ⟨named, nofun⟩
  · exact ⟨named, nofun⟩
  · exact ⟨readCComment_named named [] line, nofun⟩
  · split
    · exact ⟨SeqNode.named_empty, nofun⟩
    · refine ⟨SeqNode.named_empty, fun node yields => ?_⟩
      obtain rfl := Option.some.inj yields
      exact named

theorem visitLine_named (lineno : Nat) (inside : Inside) (line : List Char) (named : seqNode.Named) :
    (visitLine lineno inside seqNode line).2.1.Named ∧
      ∀ node, (visitLine lineno inside seqNode line).2.2 = some node → node.comments.Named := by
  cases inside with
  | nothing => exact readLine_named named
  | comment block =>
      unfold visitLine
      split_ifs
      · exact ⟨named, nofun⟩
      · exact readLine_named (parseComment_named named block)
  | cComment block =>
      exact ⟨readCComment_named named block line, nofun⟩

theorem parseFrom_named (named : seqNode.Named) {lines : List (List Char)} {node : ClassNode}
    (member : node ∈ parseFrom lineno inside seqNode lines) : node.comments.Named := by
  induction lines generalizing lineno inside seqNode with
  | nil => contradiction
  | cons line rest ih =>
      obtain ⟨next, yielded⟩ := visitLine_named lineno inside line named
      rcases List.mem_append.mp member with now | later
      · exact yielded node (Option.mem_toList.mp now)
      · exact ih next later

end Comments

section Numbers

theorem toString_toList (i : Nat) : (toString i).toList = Nat.toDigits 10 i := String.toList_ofList

theorem isWordLetter_of_isDigit {c : Char} (digit : isDigit c = true) : isWordLetter c = true := by
  have same : isWordLetter c = (isLetter c || isDigit c) := rfl
  rw [same, digit, Bool.or_true]

theorem isWord_number (i : Nat) : ∀ c ∈ (toString i).toList, isWordLetter c = true := by
  intro c member
  rw [toString_toList] at member
  exact isWordLetter_of_isDigit (isDigit_of_mem_toDigits member)

end Numbers

section Registrations

/-- The characters of a parameter list. -/
def isParamChar (c : Char) : Bool := isWordLetter c || c = ' ' || c = '*' || c = ','

/-- What the templates are filled with can stand where they have it. -/
structure TmplVars.Spelled (vars : TmplVars) : Prop where
  clsName : IsIdentifier vars.clsName
  paramList : ∀ c ∈ vars.paramList, isParamChar c = true
  marshal : IsIdentifier vars.marshal
  checker : IsIdentifier vars.checker
  profiler : IsIdentifier vars.profiler

theorem forall_mem_intercalate {α : Type} {holds : α → Prop} {sep : List α} {parts : List (List α)}
    (separators : ∀ a ∈ sep, holds a) (inside : ∀ part ∈ parts, ∀ a ∈ part, holds a) :
    ∀ a ∈ sep.intercalate parts, holds a := by
  induction parts with
  | nil => simp
  | cons part parts ih =>
      obtain ⟨now, later⟩ := List.forall_mem_cons.mp inside
      cases parts with
      | nil => simpa using now
      | cons second rest =>
          rw [List.intercalate_cons_cons]
          intro a member
          rcases List.mem_append.mp member with early | late
          · rcases List.mem_append.mp early with inFirst | between
            · exact now a inFirst
            · exact separators a between
          · exact ih later a late

theorem isParamChar_of_word {c : Char} (word : isWordLetter c = true) : isParamChar c = true := by
  rw [isParamChar, word]
  rfl

theorem isIdentifier_marshalName {m : List (List Char)} (types : ∀ type ∈ m, type ∈ parameterTypes) :
    IsIdentifier (marshalName m) := by
  have table : ∀ type ∈ parameterTypes, (encode type).all isWordLetter = true := by decide +kernel
  have encoded : ∀ c ∈ encode (['_'].intercalate m), isWordLetter c = true := by
    rw [encode_intercalate]
    refine forall_mem_intercalate (by simp; rfl) fun part member => ?_
    obtain ⟨type, isType, rfl⟩ := List.mem_map.mp member
    exact List.all_eq_true.mp (table type (types type isType))
  have front : IsIdentifier "OIL_MARSHAL__".toList := ⟨by decide +kernel, List.all_eq_true.mp (by decide +kernel)⟩
  refine ⟨front.1, fun c member => ?_⟩
  rcases List.mem_append.mp member with early | late
  · exact front.2 c early
  · exact encoded c late

theorem fill_spelled {node : ClassNode} {checker profiler prototype : List Char}
    (parsed : parsePrototype prototype = .ok node.prototype) (named : node.comments.Named)
    (isChecker : IsIdentifier checker) (isProfiler : IsIdentifier profiler) : (fill checker profiler node).Spelled := by
  have whole : parsePrototype prototype = .ok (node.prototype.1, node.prototype.2) := parsed
  obtain ⟨isClass, params⟩ := parsePrototype_words whole
  have kept (key default : List Char) (isDefault : IsIdentifier default) :
      IsIdentifier ((node.comments.comment.lookup key).getD default) := by
    cases known : node.comments.comment.lookup key with
    | none => exact isDefault
    | some value => exact named key value known
  have table : ∀ type ∈ parameterTypes, type.all isParamChar = true := by decide +kernel
  refine ⟨isClass, ?_, ?_, kept _ _ isChecker, kept _ _ isProfiler⟩
  · refine forall_mem_intercalate (List.all_eq_true.mp (by decide +kernel)) fun part member => ?_
    obtain ⟨param, isParam, rfl⟩ := List.mem_map.mp member
    obtain ⟨type, arg⟩ := params param isParam
    intro c inside
    rcases List.mem_append.mp inside with inType | inArg
    · exact List.all_eq_true.mp (table _ type) c inType
    · rcases List.mem_cons.mp inArg with rfl | inArg
      · rfl
      · exact isParamChar_of_word (arg.2 c inArg)
  · refine isIdentifier_marshalName fun type member => ?_
    obtain ⟨param, isParam, rfl⟩ := List.mem_map.mp member
    exact (params param isParam).1

/-- Whatever is in the file, the templates are filled with words and with parameter lists. -/
theorem registrations_spelled (deffile : List Char) : ∀ vars ∈ registrations deffile, vars.Spelled := by
  have loop (nodes : List ClassNode) (checker profiler : List Char)
      (accepted : ∀ node ∈ nodes, node.comments.Named ∧ ∃ prototype, parsePrototype prototype = .ok node.prototype)
      (isChecker : IsIdentifier checker) (isProfiler : IsIdentifier profiler) :
      ∀ vars ∈ fillAll checker profiler nodes, vars.Spelled := by
    induction nodes generalizing checker profiler with
    | nil => exact nofun
    | cons node nodes ih =>
        obtain ⟨⟨named, prototype, parsed⟩, later⟩ := List.forall_mem_cons.mp accepted
        have first := fill_spelled parsed named isChecker isProfiler
        exact List.forall_mem_cons.mpr ⟨first, ih _ _ later first.checker first.profiler⟩
  refine loop _ _ _ (fun node member => ⟨parseFrom_named SeqNode.named_empty member, ?_⟩)
    ⟨by decide +kernel, List.all_eq_true.mp (by decide +kernel)⟩
    ⟨by decide +kernel, List.all_eq_true.mp (by decide +kernel)⟩
  obtain ⟨line, _, parsed⟩ := parseFrom_node member
  exact ⟨line, parsed⟩

end Registrations

end Oil.Test.RegClasses
