import Mathlib.Data.List.Forall2
import Mathlib.Data.List.Nodup
import Mathlib.Tactic.SplitIfs
import Oil.Data.PrefixCodes
import Oil.Test.Generators.RegClasses

namespace Oil.Test.RegClasses

open Oil.Data Python

/-! # The names of the marshal functions

A class is attached to a marshal function for the types of its parameters.  The function goes
by a name that is made of these types, and the script writes one for each list of types in the
file. -/

/-- `_m`: the types of the parameters of a class. -/
def ClassNode.signature (node : ClassNode) : List (List Char) := node.prototype.2.map Prod.fst

/-- The types in upper case, with `p` for the star and no blanks left. -/
def encode (types : List Char) : List Char :=
  (replaceStar (types.map Char.toUpper)).map fun c => if c = ' ' then '_' else c

def marshalName (m : List (List Char)) : List Char := "OIL_MARSHAL__".toList ++ encode (['_'].intercalate m)

/-- The entries of `tmpl_vars` that the body of a marshal function is filled with. -/
structure MarshalVars where
  marshal : List Char
  marshalT : List Char
  cvtArgs : List Char
  argsList : List Char
deriving DecidableEq

/-- `supported_base_types`, with the member of `OilGenericType` that holds an argument of the type. -/
def genericMembers : List (String × String) :=
  [("int", "p"), ("int8_t", "p"), ("uint8_t", "p"), ("int16_t", "p"), ("uint16_t", "p"), ("int32_t", "p"),
    ("uint32_t", "p"), ("int64_t", "i64"), ("uint64_t", "i64"), ("float", "f64"), ("double", "f64")]

example : genericMembers.map Prod.fst = supportedBaseTypes := rfl

/-- `supported_base_types.get (type, 'p')` -/
def genericMember (type : List Char) : List Char :=
  (((genericMembers.find? fun entry => type = entry.1.toList).map Prod.snd).getD "p").toList

def marshalBody (m : List (List Char)) : MarshalVars where
  marshal := marshalName m
  marshalT := ", ".toList.intercalate m
  cvtArgs := ['\n'].intercalate (m.zipIdx.map fun (type, i) =>
    "    ".toList ++ type ++ " _".toList ++ (toString i).toList ++ " = (".toList ++ type ++ ") (args + ".toList ++
      (toString i).toList ++ ")->".toList ++ genericMember type ++ ";".toList)
  argsList := ", ".toList.intercalate (m.zipIdx.map fun (_, i) => '_' :: (toString i).toList)

/-- The lists of types in `all_marshals`, in the order in which the set is gone through. -/
structure AllMarshals (nodes : List ClassNode) (marshals : List (List (List Char))) : Prop where
  once : marshals.Nodup
  all : ∀ m, m ∈ marshals ↔ ∃ node ∈ nodes, node.signature = m

theorem fill_marshal (checker profiler : List Char) (node : ClassNode) :
    (fill checker profiler node).marshal = marshalName node.signature := rfl

/-! ## The types of parameters -/

def fullType (q t s : List Char) : List Char := [' '].intercalate ([q, t, s].filter (· ≠ []))

/-- Every full type that `_parse_parameter` lets through. -/
def parameterTypes : List (List Char) :=
  supportedBaseTypes.flatMap fun base => [[], "const".toList].flatMap fun q => [[], ['*']].map fun s =>
    fullType q base.toList s

section Star

open Matcher

theorem captured_word {name : String} {holds : List Char → Prop} : Captured name holds word :=
  captured_char.seq captured_many

/-- The stars of a parameter begin with one. -/
theorem captured_star : Captured "star" (fun text => text.head? = some '*') parameterPattern := by
  have stars : Captured "star" (fun text => text.head? = some '*') starsep := by
    have inner : Captured "star" (fun text => text.head? = some '*') (seq star1 (star (seq pad star1))) :=
      captured_char.seq (captured_many.seq captured_char).star
    have begins : Consumes (fun text => text.head? = some '*') (seq star1 (star (seq pad star1))) := by
      refine (consumes_char.seq ((consumes_many.seq consumes_char).mono fun _ _ => trivial).star).mono ?_
      intro word ⟨_, ends, split, ⟨c, isStar, first⟩, _⟩
      rw [split, first, of_decide_eq_true isStar]
      rfl
    exact (captured_many.seq ((inner.group fun _ => begins).seq captured_many)).alt captured_plus
  have named {other : String} (different : "star" ≠ other) :
      Captured "star" (fun text => text.head? = some '*') (group other word) :=
    captured_word.group fun same => absurd same different
  have qualified : Captured "star" (fun text => text.head? = some '*') qual :=
    (captured_word.seq (captured_plus.seq captured_word).star).group fun same => absurd same (by decide)
  exact captured_many.seq ((qualified.seq captured_plus).opt.seq ((named (by decide)).seq
    (stars.seq ((named (by decide)).seq (captured_many.seq captured_dollar)))))

end Star

theorem star_cases {aParam : List Char} {m : Captures} (matched : parameterPattern.firstMatch aParam = some m)
    (short : ¬ 1 < ((m.named "star").getD []).length) :
    (m.named "star").getD [] = [] ∨ (m.named "star").getD [] = ['*'] := by
  cases known : m.named "star" with
  | none => exact .inl rfl
  | some text =>
      have begins := captured_star.named matched known
      rw [known, Option.getD_some] at short
      cases text with
      | nil => contradiction
      | cons c rest =>
          cases rest with
          | nil =>
              obtain rfl := Option.some.inj begins
              exact .inr rfl
          | cons c' rest => simp at short

theorem mem_parameterTypes {q t s : List Char} (qualifier : q = [] ∨ q = "const".toList)
    (supported : supportedBaseTypes.any (fun name => t = name.toList) = true) (pointer : s = [] ∨ s = ['*']) :
    fullType q t s ∈ parameterTypes := by
  obtain ⟨base, listed, same⟩ := List.any_eq_true.mp supported
  obtain rfl := of_decide_eq_true same
  refine List.mem_flatMap.mpr ⟨base, listed, List.mem_flatMap.mpr ⟨q, ?_, List.mem_map.mpr ⟨s, ?_, rfl⟩⟩⟩
  · simpa using qualifier
  · simpa using pointer

theorem mem_of_parseParameter {aParam type arg : List Char} (parsed : parseParameter aParam = .ok (type, arg)) :
    type ∈ parameterTypes := by
  unfold parseParameter at parsed
  split at parsed
  case h_1 => contradiction
  case h_2 m matched =>
    dsimp only at parsed
    split_ifs at parsed with qualified supported starred
    obtain ⟨rfl, _⟩ := Prod.mk.inj (Except.ok.inj parsed)
    have qualifier : (m.named "qual").getD [] = [] ∨ (m.named "qual").getD [] = "const".toList := by
      rw [Classical.not_and_iff_not_or_not, not_not, not_not] at qualified
      exact qualified
    exact mem_parameterTypes qualifier supported (star_cases matched starred)

/-- The types that `_parse_parameter` returns. -/
def ParameterType (type : List Char) : Prop := ∃ aParam arg, parseParameter aParam = .ok (type, arg)

theorem parameterType_iff {type : List Char} : ParameterType type ↔ type ∈ parameterTypes := by
  constructor
  · exact fun ⟨_, _, parsed⟩ => mem_of_parseParameter parsed
  · intro listed
    have table : ∀ type ∈ parameterTypes, parseParameter (type ++ " d".toList) = .ok (type, "d".toList) := by
      decide +kernel
    exact ⟨_, _, table type listed⟩

/-! ## Names that can be told apart -/

theorem replaceStar_cons {c : Char} {rest : List Char} (plain : ¬ (c = ' ' ∧ rest.head? = some '*')) :
    replaceStar (c :: rest) = c :: replaceStar rest := by
  rw [replaceStar]
  intro rest' blank star
  exact plain ⟨blank, by rw [star]; rfl⟩

theorem replaceStar_append (front back : List Char) :
    replaceStar (front ++ '_' :: back) = replaceStar front ++ '_' :: replaceStar back := by
  induction front using replaceStar.induct with
  | case1 => exact replaceStar_cons (by simp)
  | case2 rest ih =>
      rw [List.cons_append, List.cons_append, replaceStar, ih, replaceStar, List.cons_append]
  | case3 c rest other ih =>
      rw [List.cons_append, replaceStar_cons, ih, replaceStar_cons, List.cons_append]
      · intro ⟨blank, star⟩
        obtain ⟨rest', split⟩ := List.head?_eq_some_iff.mp star
        exact other rest' blank split
      · intro ⟨blank, star⟩
        cases rest with
        | nil => simp at star
        | cons c' rest =>
            obtain rfl := Option.some.inj star
            exact other rest blank rfl

theorem encode_append (front back : List Char) :
    encode (front ++ '_' :: back) = encode front ++ '_' :: encode back := by
  have upper : '_'.toUpper = '_' := rfl
  simp [encode, replaceStar_append, upper]

theorem encode_intercalate (m : List (List Char)) :
    encode (['_'].intercalate m) = ['_'].intercalate (m.map encode) := by
  induction m with
  | nil => rfl
  | cons first rest ih =>
      cases rest with
      | nil => simp
      | cons second rest =>
          rw [List.map_cons, List.map_cons, List.intercalate_cons_cons, List.intercalate_cons_cons, ← List.map_cons,
            ← ih, List.append_assoc, List.append_assoc]
          exact encode_append _ _

/-- No encoded type begins another one when an underscore comes next. -/
theorem encode_prefixCode :
    PrefixCode {type | type ∈ parameterTypes} fun type => encode type ++ ['_'] where
  nonempty := fun _ _ => List.append_ne_nil_of_right_ne_nil _ (List.cons_ne_nil _ _)
  apart := by
    have table : ∀ front ∈ parameterTypes, ∀ type ∈ parameterTypes,
        encode front ++ ['_'] <+: encode type ++ ['_'] → front = type := by decide +kernel
    exact table

theorem marshalName_inj {m m' : List (List Char)} (nonempty : m ≠ []) (nonempty' : m' ≠ [])
    (types : ∀ type ∈ m, type ∈ parameterTypes) (types' : ∀ type ∈ m', type ∈ parameterTypes)
    (same : marshalName m = marshalName m') : m = m' := by
  have codes := List.append_cancel_left same
  rw [encode_intercalate, encode_intercalate] at codes
  exact encode_prefixCode.intercalate_inj nonempty nonempty' types types' codes

/-! ## The classes of a file -/

theorem mapM_ok {α β ε : Type} {f : α → Except ε β} {inputs : List α} {outputs : List β}
    (mapped : inputs.mapM f = .ok outputs) :
    outputs.length = inputs.length ∧ ∀ output ∈ outputs, ∃ input ∈ inputs, f input = .ok output := by
  induction inputs generalizing outputs with
  | nil =>
      obtain rfl := Except.ok.inj mapped
      exact ⟨rfl, List.forall_mem_nil _⟩
  | cons input inputs ih =>
      rw [List.mapM_cons] at mapped
      cases one : f input with
      | error e => simp [one, bind, Except.bind] at mapped
      | ok output =>
          cases rest : inputs.mapM f with
          | error e => simp [one, rest, bind, Except.bind] at mapped
          | ok others =>
              simp only [one, rest, bind, Except.bind, pure, Except.pure, Except.ok.injEq] at mapped
              subst mapped
              obtain ⟨length, each⟩ := ih rest
              refine ⟨by simp [length], ?_⟩
              intro result member
              rcases List.mem_cons.mp member with rfl | later
              · exact ⟨input, .head _, one⟩
              · obtain ⟨other, inside, ok⟩ := each result later
                exact ⟨other, .tail _ inside, ok⟩

/-- A prototype that is accepted has parameters, and they are all accepted. -/
theorem parsePrototype_types {prototype clsName : List Char} {params : List (List Char × List Char)}
    (parsed : parsePrototype prototype = .ok (clsName, params)) :
    params ≠ [] ∧ ∀ type ∈ params.map Prod.fst, ParameterType type := by
  unfold parsePrototype at parsed
  split at parsed
  case h_1 => contradiction
  case h_2 m matched =>
    split_ifs at parsed
    · contradiction
    · simp only [bind, Except.bind, pure, Except.pure] at parsed
      split at parsed
      case h_1 => contradiction
      case h_2 accepted mapped =>
        obtain ⟨_, rfl⟩ := Prod.mk.inj (Except.ok.inj parsed)
        obtain ⟨length, each⟩ := mapM_ok mapped
        refine ⟨?_, ?_⟩
        · rw [← List.length_pos_iff, length]
          exact List.length_pos_iff.mpr (List.splitOn_ne_nil _ _)
        · intro type member
          obtain ⟨⟨_, arg⟩, inside, rfl⟩ := List.mem_map.mp member
          obtain ⟨aParam, _, one⟩ := each _ inside
          exact ⟨aParam, arg, one⟩

theorem readLine_node {lineno : Nat} {seqNode : SeqNode} {line : List Char} {node : ClassNode}
    (yields : (readLine lineno seqNode line).2.2 = some node) : parsePrototype line = .ok node.prototype := by
  unfold readLine at yields
  split_ifs at yields
  split at yields
  case h_1 => contradiction
  case h_2 prototype parsed =>
    obtain rfl := Option.some.inj yields
    exact parsed

theorem visitLine_node {lineno : Nat} {inside : Inside} {seqNode : SeqNode} {line : List Char} {node : ClassNode}
    (yields : (visitLine lineno inside seqNode line).2.2 = some node) : parsePrototype line = .ok node.prototype := by
  cases inside with
  | nothing => exact readLine_node yields
  | comment block =>
      unfold visitLine at yields
      split_ifs at yields
      exact readLine_node yields
  | cComment block => contradiction

theorem parseFrom_node {lineno : Nat} {inside : Inside} {seqNode : SeqNode} {lines : List (List Char)}
    {node : ClassNode} (member : node ∈ parseFrom lineno inside seqNode lines) :
    ∃ line ∈ lines, parsePrototype line = .ok node.prototype := by
  induction lines generalizing lineno inside seqNode with
  | nil => contradiction
  | cons line rest ih =>
      rcases List.mem_append.mp member with now | later
      · exact ⟨line, .head _, visitLine_node (Option.mem_toList.mp now)⟩
      · obtain ⟨line, below, parsed⟩ := ih later
        exact ⟨line, .tail _ below, parsed⟩

/-- The signatures of the classes are lists of types for which the names can be told apart. -/
theorem signature_types {deffile : List Char} {node : ClassNode} (member : node ∈ parse deffile) :
    node.signature ≠ [] ∧ ∀ type ∈ node.signature, ParameterType type := by
  obtain ⟨line, _, parsed⟩ := parseFrom_node member
  obtain ⟨nonempty, types⟩ := parsePrototype_types parsed
  exact ⟨by simpa [ClassNode.signature] using nonempty, types⟩

theorem fillAll_forall₂ {holds : ClassNode → TmplVars → Prop} {nodes : List ClassNode}
    (each : ∀ node ∈ nodes, ∀ checker profiler, holds node (fill checker profiler node))
    (checker profiler : List Char) :
    List.Forall₂ holds nodes (fillAll checker profiler nodes) := by
  induction nodes generalizing checker profiler with
  | nil => exact .nil
  | cons node rest ih =>
      obtain ⟨first, later⟩ := List.forall_mem_cons.mp each
      exact .cons (first checker profiler) (ih later _ _)

theorem AllMarshals.types {deffile : List Char} {marshals : List (List (List Char))} {m : List (List Char)}
    (gathered : AllMarshals (parse deffile) marshals) (member : m ∈ marshals) :
    m ≠ [] ∧ ∀ type ∈ m, type ∈ parameterTypes := by
  obtain ⟨node, inside, rfl⟩ := (gathered.all m).mp member
  obtain ⟨nonempty, types⟩ := signature_types inside
  exact ⟨nonempty, fun type member => parameterType_iff.mp (types type member)⟩

theorem AllMarshals.nodup_names {deffile : List Char} {marshals : List (List (List Char))}
    (gathered : AllMarshals (parse deffile) marshals) : (marshals.map marshalName).Nodup := by
  refine List.Nodup.map_on ?_ gathered.once
  intro m member m' member' same
  obtain ⟨nonempty, types⟩ := gathered.types member
  obtain ⟨nonempty', types'⟩ := gathered.types member'
  exact marshalName_inj nonempty nonempty' types types' same

/-- The name of a marshal function belongs to one list of types.  A file's marshal functions all
have different names, and each class is attached to the one for its own parameters. -/
theorem marshals_apart :
    (∀ m m' : List (List Char), m ≠ [] → m' ≠ [] → (∀ type ∈ m, ParameterType type) →
      (∀ type ∈ m', ParameterType type) → marshalName m = marshalName m' → m = m') ∧
    ∀ deffile marshals, AllMarshals (parse deffile) marshals →
      (marshals.map fun m => (marshalBody m).marshal).Nodup ∧
      List.Forall₂ (fun node vars => ∀ m ∈ marshals, (marshalBody m).marshal = vars.marshal ↔ m = node.signature)
        (parse deffile) (registrations deffile) := by
  have apart (m m' : List (List Char)) (nonempty : m ≠ []) (nonempty' : m' ≠ [])
      (types : ∀ type ∈ m, ParameterType type) (types' : ∀ type ∈ m', ParameterType type)
      (same : marshalName m = marshalName m') : m = m' :=
    marshalName_inj nonempty nonempty' (fun type member => parameterType_iff.mp (types type member))
      (fun type member => parameterType_iff.mp (types' type member)) same
  refine ⟨apart, ?_⟩
  intro deffile marshals gathered
  constructor
  · exact gathered.nodup_names
  · apply fillAll_forall₂
    intro node inside checker profiler m member
    rw [fill_marshal]
    obtain ⟨nonempty, types⟩ := gathered.types member
    have gatheredNode := gathered.types ((gathered.all _).mpr ⟨node, inside, rfl⟩)
    constructor
    · exact fun same => marshalName_inj nonempty gatheredNode.1 types gatheredNode.2 same
    · exact fun same => same ▸ rfl

def constFile : List Char := "void f (const uint8_t *s, int n);\nvoid g (uint8_t *d, int n);\n".toList

def constSignature : List (List Char) := ["const uint8_t *".toList, "int".toList]

def plainSignature : List (List Char) := ["uint8_t *".toList, "int".toList]

theorem marshals_apart_const : marshalName constSignature ≠ marshalName plainSignature ∧
    ([constSignature, plainSignature].map fun m => (marshalBody m).marshal).Nodup := by
  have signatures : (parse constFile).map ClassNode.signature = [constSignature, plainSignature] := by decide +kernel
  have types : ∀ type ∈ constSignature ++ plainSignature, type ∈ parameterTypes := by decide +kernel
  have gathered : AllMarshals (parse constFile) [constSignature, plainSignature] :=
    ⟨by decide, fun m => by rw [← signatures, List.mem_map]⟩
  obtain ⟨typesConst, typesPlain⟩ := List.forall_mem_append.mp fun type member =>
    parameterType_iff.mpr (types type member)
  refine ⟨fun same => ?_, (marshals_apart.2 constFile _ gathered).1⟩
  have equal := marshals_apart.1 _ _ (List.cons_ne_nil _ _) (List.cons_ne_nil _ _) typesConst typesPlain same
  exact absurd equal (by decide)

end Oil.Test.RegClasses
