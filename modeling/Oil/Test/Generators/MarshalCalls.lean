import Oil.Test.Generators.MarshalFile

namespace Oil.Test.RegClasses

open Oil.Data Program

/-! # Each class is tested through the marshal function for its types

The text of a marshal file is read back statement by statement, and what is read is run. -/

/-! ## The marshal functions that are read -/

section Statements

variable {m : List (List Char)} {type : List Char}

theorem behind_append (front rest : List Token) : behind front (front ++ rest) = some rest := by
  simp [behind]

/-- What stands between or behind the statements of a function. -/
def separators : List Token := [.mark ';', .mark '=', .mark ',', .mark '\x7d']

theorem typeTokens_plain (listed : type ∈ parameterTypes) : ∀ token ∈ typeTokens type, token ∉ separators := by
  have table : parameterTypes.all (fun type => (typeTokens type).all fun token => !separators.contains token) = true :=
    by decide +kernel
  intro token member
  have plain := List.all_eq_true.mp (List.all_eq_true.mp table type listed) token member
  simpa using plain

theorem separate_argNames (nonempty : m ≠ []) : Separate (m.zipIdx.map fun (_, i) => [.word (argName i)]) := by
  refine ⟨by simpa using nonempty, ?_, ?_, ?_⟩
  · intro arg member
    obtain ⟨part, _, rfl⟩ := List.mem_map.mp member
    simp
  · intro arg member
    obtain ⟨part, _, rfl⟩ := List.mem_map.mp member
    simp
  · intro arg member
    obtain ⟨part, _, rfl⟩ := List.mem_map.mp member
    rfl

/-- What can stand in a list between parentheses. -/
def Inner (token : Token) : Prop := token ≠ .mark ';' ∧ token ≠ .mark '=' ∧ token ≠ .mark '\x7d'

theorem inner_comma : ∀ token ∈ [Token.mark ','], Inner token := by
  simp [Inner]

theorem inner_types (listed : ∀ type ∈ m, type ∈ parameterTypes) :
    ∀ token ∈ [Token.mark ','].intercalate (m.map typeTokens), Inner token := by
  refine forall_mem_intercalate inner_comma ?_
  intro tokens member token inside
  obtain ⟨type, isType, rfl⟩ := List.mem_map.mp member
  have plain := typeTokens_plain (listed type isType) token inside
  simp only [separators, List.mem_cons, not_or] at plain
  exact ⟨plain.1, plain.2.1, plain.2.2.2.1⟩

theorem inner_argNames (m : List (List Char)) :
    ∀ token ∈ [Token.mark ','].intercalate (m.zipIdx.map fun (_, i) => [.word (argName i)]), Inner token := by
  refine forall_mem_intercalate inner_comma ?_
  intro arg isArg token inside
  obtain ⟨part, _, rfl⟩ := List.mem_map.mp isArg
  rw [List.mem_singleton.mp inside]
  simp [Inner]

theorem readStatement_alias (nonempty : m ≠ []) (listed : ∀ type ∈ m, type ∈ parameterTypes) :
    readStatement ([keyword "typedef", keyword "void", opening, .mark '*', keyword "prototype", closing, opening] ++
      [Token.mark ','].intercalate (m.map typeTokens) ++ [closing]) =
      some (.aliases "prototype".toList (m.map typeTokens)) := by
  have apart : Token.mark '=' ∉ [Token.mark ','].intercalate (m.map typeTokens) :=
    fun member => (inner_types listed _ member).2.1 rfl
  have commas : ∀ tokens ∈ m.map typeTokens, Token.mark ',' ∉ tokens := by
    intro tokens member inside
    obtain ⟨type, isType, rfl⟩ := List.mem_map.mp member
    exact typeTokens_plain (listed type isType) _ inside (by decide)
  have whole : ([keyword "typedef", keyword "void", opening, .mark '*', keyword "prototype", closing, opening] ++
      [Token.mark ','].intercalate (m.map typeTokens) ++ [closing]).splitOn (.mark '=') =
      [[keyword "typedef", keyword "void", opening, .mark '*', keyword "prototype", closing, opening] ++
        [Token.mark ','].intercalate (m.map typeTokens) ++ [closing]] := by
    rw [List.splitOn_eq_singleton]
    simp [apart, opening, closing, keyword]
  have types : ([Token.mark ','].intercalate (m.map typeTokens)).splitOn (.mark ',') = m.map typeTokens :=
    List.splitOn_intercalate _ commas (by simpa using nonempty)
  rw [readStatement.eq_def, whole]
  simp [readAlias, behind, keyword, types]

/-- C has all the casts but those of a pointer to a floating type. -/
theorem castable_of_ne (listed : type ∈ parameterTypes) (notFloat : type ≠ "const float".toList)
    (notDouble : type ≠ "const double".toList) : castable (genericMember type) (typeTokens type) = true := by
  have table : ∀ type ∈ parameterTypes, type ≠ "const float".toList → type ≠ "const double".toList →
      castable (genericMember type) (typeTokens type) = true := by decide +kernel
  exact table type listed notFloat notDouble

/-- What a parameter of such a type gets can be cast to it. -/
structure Passable (type : List Char) : Prop where
  listed : type ∈ parameterTypes
  casts : castable (genericMember type) (typeTokens type) = true

theorem readStatement_load (passable : Passable type) (i : Nat) :
    readStatement (loadTokens type i) = some (loadStatement type i) := by
  obtain ⟨listed, casts⟩ := passable
  have apart : Token.mark '=' ∉ typeTokens type := fun member => typeTokens_plain listed _ member (by decide)
  have split : (loadTokens type i).splitOn (.mark '=') = [typeTokens type ++ [.word (argName i)],
      (opening :: typeTokens type ++ [closing]) ++ [opening, keyword "args", .mark '+', .word (toString i).toList,
        closing, .mark '-', .mark '>', .word (genericMember type)]] := by
    have text : loadTokens type i = (typeTokens type ++ [.word (argName i)]) ++ Token.mark '=' ::
        ((opening :: typeTokens type ++ [closing]) ++ [opening, keyword "args", .mark '+', .word (toString i).toList,
          closing, .mark '-', .mark '>', .word (genericMember type)]) := by simp [loadTokens]
    rw [text, List.splitOn_append_cons_self_of_not_mem, List.splitOn_eq_singleton]
    · simp [apart, opening, closing, keyword]
    · simp [apart]
  have member : readWord [.word (genericMember type)] = some (genericMember type) := rfl
  rw [readStatement.eq_def, split]
  dsimp only
  rw [readDeclaration, List.getLast?_append, List.getLast?_singleton, Option.some_or]
  dsimp only
  rw [List.dropLast_concat, behind_append]
  simp only [Option.bind_eq_bind, Option.bind_some, opening, closing, keyword, member, readNumber_toString, casts]
  rfl

theorem readStatement_call (nonempty : m ≠ []) :
    readStatement (callTokens "_f".toList (m.zipIdx.map fun (_, i) => [.word (argName i)])) =
      some (.calls "_f".toList (m.zipIdx.map fun (_, i) => argName i)) := by
  have apart : Token.mark '=' ∉ [Token.mark ','].intercalate (m.zipIdx.map fun (_, i) => [.word (argName i)]) :=
    fun member => (inner_argNames m _ member).2.1 rfl
  have whole : (callTokens "_f".toList (m.zipIdx.map fun (_, i) => [.word (argName i)])).splitOn (.mark '=') =
      [callTokens "_f".toList (m.zipIdx.map fun (_, i) => [.word (argName i)])] := by
    rw [List.splitOn_eq_singleton]
    simp [callTokens, apart, opening, closing]
  have words : (m.zipIdx.map fun (_, i) => [Token.word (argName i)]).mapM readWord =
      some (m.zipIdx.map fun (_, i) => argName i) := by
    rw [mapM_eq_some_iff, List.map_map, List.map_map]
    rfl
  rw [readStatement.eq_def, whole]
  dsimp only
  rw [if_neg (by simp [callTokens, keyword])]
  split
  case h_1 same => simp [callTokens, opening] at same
  case h_2 => rw [readCall_callTokens (separate_argNames nonempty), Option.bind_eq_bind, Option.bind_some, words]; rfl

/-- Every part is a statement, with no semicolon and no brace in it. -/
theorem marshalParts_read (nonempty : m ≠ []) (passable : ∀ type ∈ m, Passable type) :
    ∀ part ∈ marshalParts m, (Token.mark ';' ∉ part.1 ∧ Token.mark '\x7d' ∉ part.1) ∧
      readStatement part.1 = some part.2 := by
  have listed : ∀ type ∈ m, type ∈ parameterTypes := fun type member => (passable type member).listed
  simp only [marshalParts, List.cons_append, List.forall_mem_cons, List.forall_mem_append]
  refine ⟨⟨?_, readStatement_alias nonempty listed⟩, ⟨by decide +kernel, by decide +kernel⟩, ?_,
    ⟨by decide +kernel, by decide +kernel⟩, ⟨?_, readStatement_call nonempty⟩, ⟨by decide +kernel, by decide +kernel⟩,
    List.forall_mem_nil _⟩
  · have types := inner_types listed
    constructor
    · simpa [keyword, opening, closing] using fun member => (types _ member).1 rfl
    · simpa [keyword, opening, closing] using fun member => (types _ member).2.2 rfl
  · intro part member
    obtain ⟨⟨type, i⟩, inside, rfl⟩ := List.mem_map.mp member
    have isPassable : Passable type := passable type (List.fst_mem_of_mem_zipIdx inside)
    have plain := typeTokens_plain isPassable.listed
    refine ⟨⟨?_, ?_⟩, readStatement_load isPassable i⟩
    · simpa [loadTokens, keyword, opening, closing] using fun same => plain _ same (by decide)
    · simpa [loadTokens, keyword, opening, closing] using fun same => plain _ same (by decide)
  · have args := inner_argNames m
    constructor
    · simpa [callTokens, opening, closing] using fun member => (args _ member).1 rfl
    · simpa [callTokens, opening, closing] using fun member => (args _ member).2.2 rfl

theorem readMarshal_marshalTokens (nonempty : m ≠ []) (passable : ∀ type ∈ m, Passable type) :
    readMarshal (marshalTokens m) = some (marshalName m, (marshalParts m).map Prod.snd) := by
  have parts := marshalParts_read nonempty passable
  have apart : ∀ read ∈ (marshalParts m).map Prod.fst, Token.mark ';' ∉ read :=
    List.forall_mem_map.mpr fun part member => (parts part member).1.1
  have split : ((marshalParts m).flatMap fun part => part.1 ++ [Token.mark ';']).splitOn (.mark ';') =
      (marshalParts m).map Prod.fst ++ [[]] := by
    rw [← splitOn_terminated apart, List.flatMap_map]
  have statements : ((marshalParts m).map Prod.fst).mapM readStatement = some ((marshalParts m).map Prod.snd) := by
    rw [mapM_eq_some_iff, List.map_map, List.map_map]
    exact List.map_congr_left fun part member => (parts part member).2
  have text : marshalTokens m = keyword "void" :: .word (marshalName m) :: ((marshalParams ++ [.mark '\x7b']) ++
      (marshalParts m).flatMap fun part => part.1 ++ [.mark ';']) := by
    simp only [marshalTokens, List.cons_append]
  rw [text, readMarshal, behind_append]
  simp only [Option.bind_eq_bind, Option.bind_some, split, List.getLast?_append, List.getLast?_singleton,
    Option.some_or, and_self, ↓reduceIte, List.dropLast_concat, statements, Option.map_some]

theorem brace_notMem_marshalTokens (nonempty : m ≠ []) (passable : ∀ type ∈ m, Passable type) :
    Token.mark '\x7d' ∉ marshalTokens m := by
  intro member
  simp only [marshalTokens, List.mem_append, List.mem_flatMap] at member
  rcases member with head | ⟨part, isPart, inside⟩
  · simp [keyword, marshalParams, opening, closing] at head
  · rcases inside with inside | semicolon
    · exact (marshalParts_read nonempty passable part isPart).1.2 inside
    · simp at semicolon

theorem transduce_marshalHead (names : FileNames) : transduce step .between (marshalHead names) = (.between, []) :=
  transduce_commentHead names (by rintro _ (_ | _) <;> decide +kernel) (by rintro _ (_ | _) <;> decide +kernel)

theorem readMarshals_marshalFile (names : FileNames) {marshals : List (List (List Char))}
    (valid : ∀ m ∈ marshals, m ≠ [] ∧ ∀ type ∈ m, Passable type) :
    readMarshals (marshalFile names marshals) =
      some (marshals.map fun m => (marshalName m, (marshalParts m).map Prod.snd)) := by
  have apart : ∀ read ∈ marshals.map marshalTokens, Token.mark '\x7d' ∉ read :=
    List.forall_mem_map.mpr fun m member => brace_notMem_marshalTokens (valid m member).1 (valid m member).2
  have functions : transduce step .between (marshals.flatMap fun m => marshalFunction (marshalBody m)) =
      (.between, marshals.flatMap fun m => marshalTokens m ++ [.mark '\x7d']) :=
    transduce_flatMap fun m member => transduce_marshalFunction (valid m member).1 fun type isType =>
      ((valid m member).2 type isType).listed
  have newline : transduce step .between ['\n'] = (.between, []) := by decide +kernel
  have whole : transduce step .between (marshalFile names marshals) =
      (.between, (marshals.map marshalTokens).flatMap fun read => read ++ [.mark '\x7d']) := by
    rw [List.flatMap_map]
    refine (transduce_seq (transduce_seq (transduce_marshalHead names) functions) newline).trans ?_
    simp
  have read : (marshals.map marshalTokens).mapM readMarshal =
      some (marshals.map fun m => (marshalName m, (marshalParts m).map Prod.snd)) := by
    rw [mapM_eq_some_iff, List.map_map, List.map_map]
    exact List.map_congr_left fun m member => readMarshal_marshalTokens (valid m member).1 (valid m member).2
  have complete : tokens (marshalFile names marshals) =
      some ((marshals.map marshalTokens).flatMap fun read => read ++ [.mark '\x7d']) := by
    rw [tokens, whole]
  rw [readMarshals, complete]
  simp only [Option.bind_eq_bind, Option.bind_some, splitOn_terminated apart, List.getLast?_append,
    List.getLast?_singleton, Option.some_or, ↓reduceIte, List.dropLast_concat, read]

end Statements

/-! ## What a marshal function calls -/

section Running

variable {G V : Type} (c : Conversions G V)

/-- What the function that is tested gets for a parameter of the type. -/
def Conversions.passed (type : List Char) (arg : G) : V :=
  c.convert (typeTokens type) (c.member (genericMember type) arg)

theorem argName_ne_function (i : Nat) : argName i ≠ "_f".toList := by
  intro same
  have digits : (toString i).toList = ['f'] := (List.cons.inj same).2
  have word : readNumber ['f'] = none := by decide
  have read := readNumber_toString i
  rw [digits, word] at read
  contradiction

variable {c}

def Frame.assign (frame : Frame V) (variable_ : List Char) (value : V) : Frame V :=
  { frame with locals := Function.update frame.locals variable_ (some (.value value)) }

variable (c) in
/-- The arguments from the place `k` on have gone to the local variables with their numbers, and
nothing else has changed. -/
structure Loaded (args : List G) (m : List (List Char)) (k : Nat) (frame loaded : Frame V) : Prop where
  events : loaded.events = frame.events
  others : ∀ name, (∀ i, k ≤ i → name ≠ argName i) → loaded.locals name = frame.locals name
  values : ((m.zipIdx k).map fun (_, i) => argName i).mapM loaded.value = some (List.zipWith c.passed m (args.drop k))

theorem exec_loads (args : List G) (m : List (List Char)) (k : Nat) (frame : Frame V)
    (enough : k + m.length ≤ args.length) :
    ∃ loaded, ((m.zipIdx k).map fun (type, i) => loadStatement type i).foldlM (Statement.exec c args) frame =
        some loaded ∧ Loaded c args m k frame loaded := by
  induction m generalizing k frame with
  | nil => exact ⟨frame, rfl, rfl, fun _ _ => rfl, by simp⟩
  | cons type m ih =>
      rw [List.length_cons] at enough
      have inside : k < args.length := by omega
      obtain ⟨loaded, runs, events, others, values⟩ :=
        ih (k + 1) (frame.assign (argName k) (c.passed type args[k])) (by omega)
      have kept : loaded.value (argName k) = some (c.passed type args[k]) := by
        have same : loaded.locals (argName k) = some (.value (c.passed type args[k])) := by
          rw [others]
          · exact Function.update_self _ _ _
          · intro i later same
            have := argName_inj same
            omega
        rw [Frame.value, same]
      have step : Statement.exec c args frame (loadStatement type k) =
          some (frame.assign (argName k) (c.passed type args[k])) := by
        rw [loadStatement, Statement.exec, if_pos rfl, List.getElem?_eq_getElem inside]
        rfl
      refine ⟨loaded, ?_, events, ?_, ?_⟩
      · rw [List.zipIdx_cons, List.map_cons, List.foldlM_cons, step]
        exact runs
      · intro name apart
        rw [others name fun i later => apart i (by omega)]
        exact Function.update_of_ne (apart k (Nat.le_refl k)) _ _
      · rw [List.zipIdx_cons, List.map_cons, List.mapM_cons, kept, values, List.drop_eq_getElem_cons inside]
        rfl

def Frame.noting (frame : Frame V) (event : Event V) : Frame V := { frame with events := frame.events ++ [event] }

theorem exec_method (args : List G) (frame : Frame V) (name : List Char) :
    Statement.exec c args frame (.method "profiler".toList name "profiler".toList) =
      some (frame.noting (.profiler name)) := by
  rw [Statement.exec, if_pos ⟨rfl, rfl⟩]
  rfl

theorem exec_calls {args : List G} {frame : Frame V} {function : List Char} {words : List (List Char)}
    {types : List (List Token)} {values : List V} (known : frame.locals function = some (.function types))
    (read : words.mapM frame.value = some values) (length : values.length = types.length) :
    Statement.exec c args frame (.calls function words) = some (frame.noting (.tested types values)) := by
  simp only [Statement.exec, known, read, Option.bind_eq_bind, Option.bind_some, if_pos length]
  rfl

/-- The profiler is started, the function is called with the arguments in their order, and the
profiler is stopped. -/
theorem runMarshal_marshalParts (args : List G) (m : List (List Char)) (enough : m.length ≤ args.length) :
    runMarshal c args ((marshalParts m).map Prod.snd) = some [.profiler "start".toList,
      .tested (m.map typeTokens) (List.zipWith c.passed m args), .profiler "stop".toList] := by
  have body : (marshalParts m).map Prod.snd = .aliases "prototype".toList (m.map typeTokens) ::
      .casts "prototype".toList "_f".toList "func".toList ::
      ((m.zipIdx.map fun (type, i) => loadStatement type i) ++
        [.method "profiler".toList "start".toList "profiler".toList,
          .calls "_f".toList (m.zipIdx.map fun (_, i) => argName i),
          .method "profiler".toList "stop".toList "profiler".toList]) := by
    simp [marshalParts]
  let typed : Frame V := { typedefs := Function.update (fun _ => none) "prototype".toList (some (m.map typeTokens)) }
  let cast : Frame V :=
    { typed with locals := Function.update (fun _ => none) "_f".toList (some (.function (m.map typeTokens))) }
  have aliases : Statement.exec c args {} (.aliases "prototype".toList (m.map typeTokens)) = some typed := rfl
  have casts : Statement.exec c args typed (.casts "prototype".toList "_f".toList "func".toList) = some cast := by
    have known : typed.typedefs "prototype".toList = some (m.map typeTokens) := by
      simp only [typed, Function.update_self]
    rw [Statement.exec, if_pos rfl, known]
    rfl
  obtain ⟨loaded, loads, events, others, values⟩ := exec_loads (c := c) args m 0 cast (by omega)
  have function : loaded.locals "_f".toList = some (.function (m.map typeTokens)) := by
    rw [others _ fun i _ => (argName_ne_function i).symm]
    simp only [cast, Function.update_self]
  have length : (List.zipWith c.passed m args).length = (m.map typeTokens).length := by
    rw [List.length_zipWith, List.length_map]
    omega
  rw [List.drop_zero] at values
  have calls : Statement.exec c args (loaded.noting (.profiler "start".toList))
      (.calls "_f".toList (m.zipIdx.map fun (_, i) => argName i)) = some _ := exec_calls function values length
  rw [runMarshal, body, List.foldlM_cons, aliases, Option.bind_eq_bind, Option.bind_some, List.foldlM_cons, casts,
    Option.bind_eq_bind, Option.bind_some, List.foldlM_append, loads, Option.bind_eq_bind, Option.bind_some,
    List.foldlM_cons, exec_method, Option.bind_eq_bind, Option.bind_some, List.foldlM_cons, calls,
    Option.bind_eq_bind, Option.bind_some, List.foldlM_cons, exec_method, Option.bind_eq_bind, Option.bind_some,
    List.foldlM_nil, Option.pure_def, Option.map_some]
  simp only [Frame.noting, events, cast, typed, List.nil_append, List.cons_append]

end Running

/-- The marshal file has one function for each list of types, each under a name of its own.  That
of a class calls what it is given as a function with parameters of the types of the class, with
each argument from its place, between the start and the stop of the profiler.  There are no such
functions for a `const float` or a `const double`: their arguments would come from a pointer. -/
theorem marshals_call (names : FileNames) (deffile : List Char) (marshals : List (List (List Char)))
    (gathered : AllMarshals (parse deffile) marshals)
    (floats : ∀ node ∈ parse deffile, ∀ type ∈ node.signature,
      type ≠ "const float".toList ∧ type ≠ "const double".toList) :
    ∃ functions, readMarshals (marshalFile names marshals) = some functions ∧ (functions.map Prod.fst).Nodup ∧
      List.Forall₂ (fun node vars => ∃ body, (vars.marshal, body) ∈ functions ∧
        ∀ (G V : Type) (c : Conversions G V) (args : List G), node.signature.length ≤ args.length →
          runMarshal c args body = some [.profiler "start".toList,
            .tested (node.signature.map typeTokens) (List.zipWith c.passed node.signature args),
            .profiler "stop".toList])
        (parse deffile) (registrations deffile) := by
  have valid : ∀ m ∈ marshals, m ≠ [] ∧ ∀ type ∈ m, Passable type := by
    intro m member
    obtain ⟨nonempty, listed⟩ := gathered.types member
    obtain ⟨node, inside, rfl⟩ := (gathered.all m).mp member
    refine ⟨nonempty, fun type isType => ⟨listed type isType, ?_⟩⟩
    obtain ⟨notFloat, notDouble⟩ := floats node inside type isType
    exact castable_of_ne (listed type isType) notFloat notDouble
  refine ⟨_, readMarshals_marshalFile names valid, ?_, ?_⟩
  · rw [List.map_map]
    exact gathered.nodup_names
  · apply fillAll_forall₂
    intro node inside checker profiler
    have member : node.signature ∈ marshals := (gathered.all _).mpr ⟨node, inside, rfl⟩
    refine ⟨(marshalParts node.signature).map Prod.snd, List.mem_map.mpr ⟨node.signature, member, rfl⟩, ?_⟩
    intro G V c args enough
    exact runMarshal_marshalParts args node.signature enough

def copySignature : List (List Char) := ["uint8_t *".toList, "int".toList, "uint8_t *".toList, "int".toList]

theorem marshals_call_oilfuncs : ∃ functions body,
    readMarshals (marshalFile (FileNames.ofPath "oilfuncs/oilfuncs.def".toUTF8.toList) [copySignature]) = some functions ∧
    ("OIL_MARSHAL__UINT8_Tp_INT_UINT8_Tp_INT".toList, body) ∈ functions ∧
    runMarshal (G := Nat) (V := Nat) ⟨fun _ arg => arg, fun _ value => value⟩ [100, 8, 200, 16] body =
      some [.profiler "start".toList, .tested (copySignature.map typeTokens) [100, 8, 200, 16],
        .profiler "stop".toList] := by
  have signatures : (parse oilfuncsDef).map ClassNode.signature = [copySignature] := by decide +kernel
  have named : (registrations oilfuncsDef).map TmplVars.marshal = ["OIL_MARSHAL__UINT8_Tp_INT_UINT8_Tp_INT".toList] := by
    decide +kernel
  have gathered : AllMarshals (parse oilfuncsDef) [copySignature] :=
    ⟨List.nodup_singleton _, fun m => by rw [← signatures, List.mem_map]⟩
  have floats : ∀ node ∈ parse oilfuncsDef, ∀ type ∈ node.signature,
      type ≠ "const float".toList ∧ type ≠ "const double".toList := by
    have table : ∀ type ∈ copySignature, type ≠ "const float".toList ∧ type ≠ "const double".toList := by decide +kernel
    intro node member
    have signature : node.signature ∈ (parse oilfuncsDef).map ClassNode.signature := List.mem_map_of_mem member
    rw [signatures, List.mem_singleton] at signature
    rwa [signature]
  obtain ⟨functions, read, _, each⟩ := marshals_call (FileNames.ofPath "oilfuncs/oilfuncs.def".toUTF8.toList) oilfuncsDef
    [copySignature] gathered floats
  obtain ⟨node, parsed, signature⟩ := List.map_eq_singleton_iff.mp signatures
  obtain ⟨vars, registered, marshal⟩ := List.map_eq_singleton_iff.mp named
  rw [parsed, registered] at each
  obtain ⟨⟨body, member, runs⟩, _⟩ := List.forall₂_cons.mp each
  rw [marshal] at member
  rw [signature] at runs
  exact ⟨functions, body, read, member, runs Nat Nat _ [100, 8, 200, 16] (Nat.le_refl 4)⟩

end Oil.Test.RegClasses
