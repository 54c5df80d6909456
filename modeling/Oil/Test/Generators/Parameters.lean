import Oil.Test.Generators.Scopes
import Oil.Test.Generators.Words

namespace Oil.Test.RegClasses

open Oil.Data Program

/-! # Parameters in generated text

The parameters of a class stand in parentheses wherever the function of the class, or a pointer to
it, is declared. -/

section Reading

/-- A parameter list that stands in parentheses. -/
def paramTokens (vars : TmplVars) : List Token := (tokens vars.paramList).getD []

/-- Where the reader can be in a parameter list. -/
inductive InParams : Mode → Prop
  | between : InParams .between
  | word (letters : List Char) : InParams (.word letters)

theorem start_param {c : Char} (param : isParamChar c = true) :
    InParams (start c).1 ∧ ∀ token ∈ (start c).2, token ≠ .mark ';' := by
  simp only [isParamChar, Bool.or_eq_true, decide_eq_true_eq] at param
  rcases param with ((word | rfl) | rfl) | rfl
  · rw [start, if_pos word]
    exact ⟨.word _, List.forall_mem_nil _⟩
  · exact ⟨.between, List.forall_mem_nil _⟩
  · exact ⟨.between, by decide⟩
  · exact ⟨.between, by decide⟩

/-- In a parameter list there are only words, stars and commas. -/
theorem tokens_paramList {text : List Char} (params : ∀ c ∈ text, isParamChar c = true) :
    ∃ found, tokens text = some found ∧ Token.mark ';' ∉ found := by
  have stays (mode : Mode) (c : Char) (inside : InParams mode) (param : isParamChar c = true) :
      InParams (step mode c).1 ∧ ∀ token ∈ (step mode c).2, token ≠ .mark ';' := by
    obtain ⟨next, apart⟩ := start_param param
    cases inside with
    | between => exact ⟨next, apart⟩
    | word letters =>
        rw [step]
        split
        · exact ⟨.word _, List.forall_mem_nil _⟩
        · exact ⟨next, List.forall_mem_cons.mpr ⟨by simp, apart⟩⟩
  obtain ⟨inside, apart⟩ := transduce_within stays params .between
  rw [tokens]
  rcases ended : transduce step .between text with ⟨mode, found⟩
  rw [ended] at inside apart
  cases inside with
  | between => exact ⟨found, rfl, fun member => apart _ member rfl⟩
  | word letters =>
      refine ⟨_, rfl, fun member => ?_⟩
      rcases List.mem_append.mp member with early | late
      · exact apart _ early rfl
      · simp at late

end Reading

section Types

def typeTokens (type : List Char) : List Token := (tokens type).getD []


/-- What the reader makes of a type before a blank, a comma or a parenthesis. -/
theorem transduce_type {type : List Char} (listed : type ∈ parameterTypes) :
    transduce step .between (type ++ [' ']) = (.between, typeTokens type) ∧
      transduce step .between (type ++ [',']) = (.between, typeTokens type ++ [.mark ',']) ∧
      transduce step .between (type ++ [')']) = (.between, typeTokens type ++ [closing]) := by
  have table : ∀ type ∈ parameterTypes, transduce step .between (type ++ [' ']) = (.between, typeTokens type) ∧
      transduce step .between (type ++ [',']) = (.between, typeTokens type ++ [.mark ',']) ∧
      transduce step .between (type ++ [')']) = (.between, typeTokens type ++ [closing]) := by decide +kernel
  exact table type listed

/-- A parameter of a class, as it is written. -/
def paramToken (param : List Char × List Char) : List Token := typeTokens param.1 ++ [.word param.2]

variable {headers : Headers} {params : List (List Char × List Char)}

/-- The types of parameters have no commas, and C knows them if it knows the base types. -/
theorem typeTokens_type {type : List Char} (listed : type ∈ parameterTypes)
    (known : ∀ base ∈ supportedBaseTypes, headers.known base.toList = true) :
    .mark ',' ∉ typeTokens type ∧ isType headers.known (typeTokens type) = true := by
  have table : ∀ type ∈ parameterTypes, .mark ',' ∉ typeTokens type ∧
      isType (fun name => supportedBaseTypes.any fun base => name = base.toList) (typeTokens type) = true := by
    decide +kernel
  obtain ⟨commas, isBase⟩ := table type listed
  refine ⟨commas, isPlainType_mono (fun name base => ?_) isBase⟩
  obtain ⟨word, member, same⟩ := List.any_eq_true.mp base
  obtain rfl := of_decide_eq_true same
  exact known word member

theorem transduce_param {param : List Char × List Char} (listed : param.1 ∈ parameterTypes)
    (identifier : IsIdentifier param.2) :
    transduce step .between (param.1 ++ ' ' :: param.2 ++ [',']) = (.between, paramToken param ++ [.mark ',']) ∧
      transduce step .between (param.1 ++ ' ' :: param.2 ++ [')']) = (.between, paramToken param ++ [closing]) := by
  obtain ⟨blank, _, _⟩ := transduce_type listed
  have comma : transduce step .between [','] = (.between, [.mark ',']) := by decide +kernel
  have paren : transduce step .between [')'] = (.between, [closing]) := by decide +kernel
  have nonempty := nonempty_of_identifier identifier
  have first := transduce_seq blank (transduce_named nonempty identifier.2 rfl comma)
  have last := transduce_seq blank (transduce_named nonempty identifier.2 rfl paren)
  constructor
  · simpa [paramToken] using first
  · simpa [paramToken] using last

/-- The parameters of a class are read one by one. -/
theorem tokens_params (nonempty : params ≠ [])
    (each : ∀ param ∈ params, param.1 ∈ parameterTypes ∧ IsIdentifier param.2)
    (chars : ∀ c ∈ ", ".toList.intercalate (params.map fun p => p.1 ++ ' ' :: p.2), isParamChar c = true) :
    tokens (", ".toList.intercalate (params.map fun p => p.1 ++ ' ' :: p.2)) =
      some ([Token.mark ','].intercalate (params.map paramToken)) := by
  obtain ⟨found, complete, _⟩ := tokens_paramList chars
  obtain ⟨mode, early, late, read, closed, rfl⟩ := transduce_closed complete
  have listed := transduce_list nonempty fun param member =>
    transduce_param (each param member).1 (each param member).2
  rw [transduce_seq read closed, Prod.mk.injEq, ← List.append_assoc] at listed
  rw [complete, List.append_cancel_right listed.2]

theorem params_intercalate (nonempty : params ≠ []) (listed : ∀ param ∈ params, param.1 ∈ parameterTypes)
    (known : ∀ base ∈ supportedBaseTypes, headers.known base.toList = true)
    (free : ∀ param ∈ params, headers.free param.2 = true) (once : (params.map Prod.snd).Nodup) :
    headers.params ([Token.mark ','].intercalate (params.map paramToken)) =
      some ((params.map Prod.fst).map typeTokens) := by
  have split : ([Token.mark ','].intercalate (params.map paramToken)).splitOn (.mark ',') = params.map paramToken := by
    refine List.splitOn_intercalate _ (fun part member => ?_) (by simpa using nonempty)
    obtain ⟨param, isParam, rfl⟩ := List.mem_map.mp member
    simp [paramToken, (typeTokens_type (listed param isParam) known).1]
  have some_ : [Token.mark ','].intercalate (params.map paramToken) ≠ [] := by
    intro none
    rw [none, List.splitOn_nil] at split
    obtain ⟨param, _, same⟩ := List.map_eq_singleton_iff.mp split.symm
    simp [paramToken] at same
  have each : (params.map paramToken).all headers.isParam = true := by
    refine List.all_eq_true.mpr fun part member => ?_
    obtain ⟨param, isParam, rfl⟩ := List.mem_map.mp member
    simp [paramToken, Headers.isParam, free param isParam, (typeTokens_type (listed param isParam) known).2]
  have names : ((params.map paramToken).map List.getLast?).Nodup := by
    have named : (params.map paramToken).map List.getLast? = (params.map Prod.snd).map fun name => some (.word name) := by
      simp [paramToken, Function.comp_def]
    rw [named]
    exact once.map fun name other same => Token.word.inj (Option.some.inj same)
  have types : (params.map paramToken).map List.dropLast = (params.map Prod.fst).map typeTokens := by
    simp [paramToken, Function.comp_def]
  simp only [Headers.params, if_neg some_, split, each, types, decide_eq_true names, Bool.and_self, ↓reduceIte]

end Types

section Classes

variable {checker profiler : List Char} {node : ClassNode} {nodes : List ClassNode} {vars : TmplVars}

theorem mem_fillAll (member : vars ∈ fillAll checker profiler nodes) :
    ∃ node ∈ nodes, ∃ checker profiler, vars = fill checker profiler node := by
  induction nodes generalizing checker profiler with
  | nil => contradiction
  | cons node nodes ih =>
      rcases List.mem_cons.mp member with rfl | later
      · exact ⟨node, .head _, _, _, rfl⟩
      · obtain ⟨other, inside, filled⟩ := ih later
        exact ⟨other, .tail _ inside, filled⟩

/-- What is written for a class comes from its definition. -/
theorem exists_node {deffile : List Char} (member : vars ∈ registrations deffile) :
    ∃ node ∈ parse deffile, vars.clsName = node.prototype.1 ∧ vars.marshal = marshalName node.signature ∧
      paramTokens vars = [Token.mark ','].intercalate (node.prototype.2.map paramToken) ∧
      node.prototype.2 ≠ [] ∧ ∀ param ∈ node.prototype.2, param.1 ∈ parameterTypes := by
  have spelled := registrations_spelled deffile vars member
  obtain ⟨node, inside, checker, profiler, rfl⟩ := mem_fillAll member
  obtain ⟨line, _, parsed⟩ := parseFrom_node inside
  have whole : parsePrototype line = .ok (node.prototype.1, node.prototype.2) := parsed
  obtain ⟨_, words⟩ := parsePrototype_words whole
  have nonempty := (parsePrototype_types whole).1
  have read : tokens (fill checker profiler node).paramList = _ := tokens_params nonempty words spelled.paramList
  exact ⟨node, inside, rfl, rfl, by rw [paramTokens, read, Option.getD_some], nonempty,
    fun param member => (words param member).1⟩

end Classes

end Oil.Test.RegClasses
