import Oil.Test.Generators.Words
import Oil.Test.Parameter.Language
import Oil.Test.Parameter.Lengths

namespace Oil.Test.RegClasses

open Oil.Data Python

/-! # The prototypes that the tester reads

The generator writes the parameters of a class into a string, and the tester parses it again with
a pattern of its own. -/

/-- The type of the tester for a type that the generator lets through. -/
def testedType (type : List Char) : OilType :=
  oilTypeParse (((type.splitOn ' ').find? fun word => word ≠ "const".toList).getD []) (type.getLast? = some '*')

/-- The record that the tester keeps of a parameter with such a name. -/
def declaredParameter (type : List Char) (name : NameSpelling) : OilParameter :=
  let p := name.parameter { cType := testedType type }
  { p with argType := argTypeParse p.argClass p.isStride p.index, parameter := type ++ ' ' :: name.text }

/-- The record is the one for a declared type and name, which the tester knows. -/
def ReadAs (declared : List Char × List Char) (p : OilParameter) : Prop :=
  ∃ name : NameSpelling, name.text = declared.2 ∧ testedType declared.1 ≠ .unknown ∧ name.Supported ∧
    p = declaredParameter declared.1 name

def LengthSpec.onN : LengthSpec → Bool
  | .fixed _ => false
  | .var v | .varPlus v _ => v = .n

def Lengths.onN : Lengths → Bool
  | .none => true
  | .one len1 => LengthSpec.onN len1
  | .two len1 len2 => LengthSpec.onN len1 || LengthSpec.onN len2

/-- The parameter is an array whose length depends on `n`. -/
def onN : NameSpelling → Bool
  | .array _ _ lengths => Lengths.onN lengths
  | _ => false

/-- The parameters of a class that can be tested: of known types, with names of the documented
kinds, and with a scale parameter if the length of an array depends on one. -/
structure Testable (params : List (List Char × List Char)) : Prop where
  few : params.length ≤ 22
  known : ∀ declared ∈ params, testedType declared.1 ≠ .unknown ∧
    ∃ name : NameSpelling, name.text = declared.2 ∧ name.Supported
  scaled : (∃ declared ∈ params, declared.2 = ['n'] ∨ declared.2 = ['m']) ∨
    ∀ declared ∈ params, ∀ name : NameSpelling, name.text = declared.2 → onN name = false

theorem splitOn_params (first : List Char) {rest : List (List Char)} (apart : ∀ part ∈ first :: rest, ',' ∉ part) :
    (", ".toList.intercalate (first :: rest)).splitOn ',' = first :: rest.map (' ' :: ·) := by
  have commas (parts : List (List Char)) (first : List Char) :
      ", ".toList.intercalate (first :: parts) = [','].intercalate (first :: parts.map (' ' :: ·)) := by
    induction parts generalizing first with
    | nil => simp
    | cons second parts ih =>
        rw [List.intercalate_cons_cons, ih, List.map_cons, List.intercalate_cons_cons]
        cases parts <;> simp [List.intercalate_cons_cons]
  obtain ⟨here, later⟩ := List.forall_mem_cons.mp apart
  rw [commas]
  refine List.splitOn_intercalate ',' (List.forall_mem_cons.mpr ⟨here, fun part member => ?_⟩) (List.cons_ne_nil _ _)
  obtain ⟨other, isPart, rfl⟩ := List.mem_map.mp member
  rw [List.mem_cons, not_or]
  exact ⟨by decide, later other isPart⟩

section OneParameter

variable {base : String} {q s : List Char}

theorem exists_identifier (supported : base ∈ supportedBaseTypes) : ∃ word : Identifier, word.1 = base.toList := by
  have table : ∀ base ∈ supportedBaseTypes,
      base.toList.head?.any isWordStart = true ∧ base.toList.tail.all isWordChar = true := by decide +kernel
  obtain ⟨starts, all⟩ := table base supported
  cases text : base.toList with
  | nil => simp [text] at starts
  | cons c rest =>
      rw [text] at starts all
      exact ⟨⟨c :: rest, c, rest, rfl, starts, List.all_eq_true.mp all⟩, rfl⟩

theorem fullType_pointer (nonempty : base.toList ≠ []) (qualifier : q = [] ∨ q = "const".toList)
    (pointer : s = [] ∨ s = ['*']) :
    fullType q base.toList s = fullType q base.toList [] ++ if s = [] then [] else " *".toList := by
  rcases qualifier with rfl | rfl <;> rcases pointer with rfl | rfl <;> simp [fullType, nonempty]

/-- A parameter that the generator writes is a spelling, if its name is one. -/
theorem exists_spelling (supported : base ∈ supportedBaseTypes) (qualifier : q = [] ∨ q = "const".toList)
    (pointer : s = [] ∨ s = ['*']) (spelled : NameSpelling) :
    ∃ spelling : Spelling, spelling.text = fullType q base.toList s ++ ' ' :: spelled.text ∧
      spelling.reading = ⟨base.toList, decide (s ≠ []), spelled⟩ := by
  obtain ⟨word, same⟩ := exists_identifier supported
  have nonempty : base.toList ≠ [] := same ▸ word.ne_nil
  have typed : ∃ type : TypeSpelling, type.text = fullType q base.toList [] ∧ type.word = word := by
    rcases qualifier with rfl | rfl
    · exact ⟨.plain word, by simp [TypeSpelling.text, fullType, same, nonempty], rfl⟩
    · exact ⟨.constBefore oneSpace word, by simp [TypeSpelling.text, fullType, same, nonempty]; rfl, rfl⟩
  have separated : ∃ separator : Separator, separator.text = (if s = [] then [] else " *".toList) ++ [' '] ∧
      separator.starred = decide (s ≠ []) := by
    rcases pointer with rfl | rfl
    · exact ⟨.gap oneSpace, rfl, rfl⟩
    · exact ⟨.star ⟨[' '], List.all_eq_true.mp rfl⟩ ⟨[' '], List.all_eq_true.mp rfl⟩, rfl, rfl⟩
  obtain ⟨type, typeText, named⟩ := typed
  obtain ⟨separator, separatorText, starred⟩ := separated
  refine ⟨⟨type, separator, spelled⟩, ?_, ?_⟩
  · rw [Spelling.text, typeText, separatorText, fullType_pointer nonempty qualifier pointer]
    simp
  · rw [Spelling.reading, named, same, starred]

theorem exists_parameterType {type : List Char} (listed : type ∈ parameterTypes) :
    ∃ base ∈ supportedBaseTypes, ∃ q s, (q = [] ∨ q = "const".toList) ∧ (s = [] ∨ s = ['*']) ∧
      type = fullType q base.toList s := by
  obtain ⟨base, supported, qualified⟩ := List.mem_flatMap.mp listed
  obtain ⟨q, qualifier, starred⟩ := List.mem_flatMap.mp qualified
  obtain ⟨s, pointer, rfl⟩ := List.mem_map.mp starred
  exact ⟨base, supported, q, s, by simpa using qualifier, by simpa using pointer, rfl⟩

theorem testedType_fullType (supported : base ∈ supportedBaseTypes) (qualifier : q = [] ∨ q = "const".toList)
    (pointer : s = [] ∨ s = ['*']) :
    testedType (fullType q base.toList s) = oilTypeParse base.toList (s ≠ []) := by
  have table : ∀ base ∈ supportedBaseTypes, ∀ q ∈ [[], "const".toList], ∀ s ∈ [[], ['*']],
      testedType (fullType q base.toList s) = oilTypeParse base.toList (s ≠ []) := by decide +kernel
  exact table base supported q (by simpa using qualifier) s (by simpa using pointer)

end OneParameter

section Prototype

variable {type name : List Char} {p : OilParameter}

theorem head_parameterTypes (listed : type ∈ parameterTypes) : ∃ c rest, type = c :: rest ∧ isSpace c = false := by
  have table : parameterTypes.all (fun type => type.head?.any fun c => !isSpace c) = true := by decide +kernel
  have starts := List.all_eq_true.mp table type listed
  cases type with
  | nil => contradiction
  | cons c rest => exact ⟨c, rest, rfl, by simpa using starts⟩

theorem no_comma_parameterTypes (listed : type ∈ parameterTypes) : ',' ∉ type := by
  have table : parameterTypes.all (fun type => !type.contains ',') = true := by decide +kernel
  have without := List.all_eq_true.mp table type listed
  simpa using without

/-- The blanks around a parameter of the generator are stripped. -/
theorem strstrip_parameter (listed : type ∈ parameterTypes) (identifier : IsIdentifier name) (front : List Char)
    (blank : ∀ c ∈ front, isSpace c = true) :
    strstrip (front ++ (type ++ ' ' :: name)) = type ++ ' ' :: name := by
  obtain ⟨c, rest, rfl, letter⟩ := head_parameterTypes listed
  have stripped := @strip_span Char isSpace front [] (c :: rest ++ ' ' :: name) blank (List.forall_mem_nil _)
  rw [List.append_nil] at stripped
  refine stripped (fun x starts => ?_) fun x ends => ?_
  · obtain rfl := Option.some.inj starts
    exact letter
  · have nonempty : name ≠ [] := fun none => by simp [none, IsIdentifier] at identifier
    rw [List.append_cons] at ends
    exact not_isSpace_of_isWordChar (last_isWordChar _ identifier.2 nonempty x ends)

theorem exists_own_spelling (listed : type ∈ parameterTypes) (spelled : NameSpelling) :
    ∃ own : Spelling, own.text = type ++ ' ' :: spelled.text ∧ own.name = spelled ∧
      oilTypeParse own.type.word.1 own.separator.starred = testedType type := by
  obtain ⟨base, supported, q, s, qualifier, pointer, rfl⟩ := exists_parameterType listed
  obtain ⟨own, text, reading⟩ := exists_spelling supported qualifier pointer spelled
  obtain ⟨word, starred, named⟩ := Reading.mk.inj reading
  exact ⟨own, text, named, by rw [word, starred, testedType_fullType supported qualifier pointer]⟩

/-- What the tester reads of one parameter that the generator has written. -/
theorem oilParamParse_declared (listed : type ∈ parameterTypes) (identifier : IsIdentifier name) :
    oilParamParse (type ++ ' ' :: name) = some p ↔ ReadAs (type, name) p := by
  have accepted (spelled : NameSpelling) (same : spelled.text = name) :
      oilParamParse (type ++ ' ' :: name) = some p ↔
        testedType type ≠ .unknown ∧ spelled.Supported ∧ p = declaredParameter type spelled := by
    obtain ⟨own, text, named, typed⟩ := exists_own_spelling listed spelled
    subst named same
    have known := own.parameter_isSome_iff own.text
    rw [Spelling.Supported, ← oilTypeParse_known_iff, typed] at known
    have record (q : OilParameter) (parsed : own.reading.parameter own.text = some q) :
        q = declaredParameter type own.name := by
      rw [Reading.parameter, Spelling.reading] at parsed
      dsimp only at parsed
      split at parsed
      · contradiction
      · rw [← Option.some.inj parsed, typed, text]
        rfl
    rw [← text, oilParamParse_text]
    constructor
    · intro parsed
      obtain ⟨knownType, supported⟩ := known.mp (Option.isSome_of_eq_some parsed)
      exact ⟨knownType, supported, record p parsed⟩
    · rintro ⟨knownType, supported, rfl⟩
      obtain ⟨q, parsed⟩ := Option.isSome_iff_exists.mp (known.mpr ⟨knownType, supported⟩)
      rw [parsed, record q parsed]
  constructor
  · intro parsed
    have stripped := strstrip_parameter listed identifier [] (List.forall_mem_nil _)
    rw [List.nil_append] at stripped
    obtain ⟨spelling, text⟩ := spelling_of_oilParamParse (stripped.symm ▸ parsed)
    rw [stripped, Spelling.text, ← List.append_assoc, List.append_cons] at text
    -- the name is a word, and so is what the tester takes for it
    have named : spelling.name.text = name := by
      refine (back_span_unique text spelling.name.isWord (fun c ends => ?_) identifier.2 fun c ends => ?_).2
      · rw [List.getLast?_append_of_ne_nil _ spelling.separator.text_ne_nil] at ends
        exact spelling.separator.not_isWordChar c (List.mem_of_getLast? ends)
      · rw [List.getLast?_append_of_ne_nil _ (List.cons_ne_nil _ _)] at ends
        obtain rfl := Option.some.inj ends
        decide
    exact ⟨spelling.name, named, (accepted _ named).mp parsed⟩
  · rintro ⟨spelled, same, held⟩
    exact (accepted spelled same).mpr held

/-- The tester splits the string into the parameters it was made of. -/
theorem parts_declared {params : List (List Char × List Char)} (nonempty : params ≠ [])
    (declared : ∀ d ∈ params, d.1 ∈ parameterTypes ∧ IsIdentifier d.2) :
    ((", ".toList.intercalate (params.map fun d => d.1 ++ ' ' :: d.2)).splitOn ',').map strstrip =
      params.map fun d => d.1 ++ ' ' :: d.2 := by
  cases params with
  | nil => contradiction
  | cons d rest =>
      have apart : ∀ part ∈ (d :: rest).map fun d => d.1 ++ ' ' :: d.2, ',' ∉ part := by
        intro part member
        obtain ⟨d, isParam, rfl⟩ := List.mem_map.mp member
        obtain ⟨type, identifier⟩ := declared d isParam
        rw [List.mem_append, List.mem_cons, not_or, not_or]
        exact ⟨no_comma_parameterTypes type, by decide, fun inside => absurd (identifier.2 ',' inside) (by decide)⟩
      obtain ⟨⟨type, identifier⟩, below⟩ := List.forall_mem_cons.mp declared
      rw [List.map_cons, splitOn_params _ apart, List.map_cons, List.map_map, List.map_map]
      refine congrArg₂ _ (strstrip_parameter type identifier [] (List.forall_mem_nil _)) (List.map_congr_left ?_)
      intro d member
      obtain ⟨type, identifier⟩ := below d member
      exact strstrip_parameter type identifier [' '] (List.forall_mem_singleton.mpr rfl)

end Prototype

section Sane

variable {declared : List Char × List Char} {p : OilParameter}

theorem directed_ne_scale (dir : Direction) (isStride : Bool) (index : Int) :
    argTypeParse dir.argClass isStride index ≠ .n ∧ argTypeParse dir.argClass isStride index ≠ .m := by
  have directed : dir.argClass ≠ .scale := by cases dir <;> decide
  exact ⟨fun isN => directed (scale_of_argTypeParse rfl (.inl isN)),
    fun isM => directed (scale_of_argTypeParse rfl (.inr isM))⟩

theorem argType_declared (read : ReadAs declared p) :
    p.argType = .n ↔ declared.2 = ['n'] ∨ declared.2 = ['m'] := by
  obtain ⟨name, text, _, _, rfl⟩ := read
  rw [← text]
  have letters (dir : Direction) (rest : List Char) :
      ¬ (dir.letter :: rest = ['n'] ∨ dir.letter :: rest = ['m']) := by
    cases dir <;> simp [Direction.letter]
  cases name with
  | scale v =>
      refine iff_of_true rfl ?_
      cases v with
      | n => exact .inl rfl
      | m => exact .inr rfl
  | stride dir index => exact iff_of_false (directed_ne_scale dir true _).1 (letters dir _)
  | array dir index lengths => exact iff_of_false (directed_ne_scale dir false _).1 (letters dir _)

theorem lenspecParse_onN (len : LengthSpec) : (lenspecParse len.text).1 = 1 ↔ LengthSpec.onN len = true := by
  cases len with
  | fixed digits => simp [LengthSpec.text, lenspecParse_fixed, LengthSpec.onN]
  | var v => cases v <;> simp [LengthSpec.text, lenspecParse_var, LengthSpec.onN, ScaleVar.code]
  | varPlus v digits => cases v <;> simp [LengthSpec.text, lenspecParse_varPlus, LengthSpec.onN, ScaleVar.code]

theorem values_onN (lengths : Lengths) :
    (lengths.values.1.1 ≠ 1 ∧ lengths.values.2.1 ≠ 1) ↔ Lengths.onN lengths = false := by
  cases lengths with
  | none => simp [Lengths.values, Lengths.onN]
  | one len1 => simp [Lengths.values, Lengths.onN, lenspecParse_onN]
  | two len1 len2 => simp [Lengths.values, Lengths.onN, lenspecParse_onN]

/-- An array whose length depends on `n` is what the check of a prototype looks for. -/
theorem independent_declared (read : ReadAs declared p) :
    (p.isStride || p.argType = .n || p.argType = .m || p.prestrideVar ≠ 1 && p.poststrideVar ≠ 1) = true ↔
      ∀ name : NameSpelling, name.text = declared.2 → onN name = false := by
  obtain ⟨name, text, _, _, rfl⟩ := read
  have only : (∀ other : NameSpelling, other.text = declared.2 → onN other = false) ↔ onN name = false :=
    ⟨fun all => all name text, fun own other same => NameSpelling.text_inj (text.trans same.symm) ▸ own⟩
  rw [only]
  cases name with
  | scale v => exact iff_of_true rfl rfl
  | stride dir index => exact iff_of_true rfl rfl
  | array dir index lengths =>
      obtain ⟨notN, notM⟩ := directed_ne_scale dir false (indexValue (indexText index))
      rw [onN, ← values_onN]
      simp only [declaredParameter, NameSpelling.parameter, Bool.false_or, Bool.or_eq_true, Bool.and_eq_true,
        decide_eq_true_eq, notN, notM, false_or]
      exact and_congr decide_eq_true_iff decide_eq_true_iff

theorem sane_iff {params : List (List Char × List Char)} {read : List OilParameter}
    (each : List.Forall₂ ReadAs params read) :
    prototypeCheckSanity read = true ↔ (∃ declared ∈ params, declared.2 = ['n'] ∨ declared.2 = ['m']) ∨
      ∀ declared ∈ params, ∀ name : NameSpelling, name.text = declared.2 → onN name = false := by
  rw [prototypeCheckSanity, Bool.or_eq_true]
  refine or_congr ?_ ?_
  · induction each with
    | nil => simp
    | cons one _ ih => simp [argType_declared one, ih]
  · induction each with
    | nil => simp
    | cons one _ ih => rw [List.all_cons, Bool.and_eq_true, independent_declared one, ih, List.forall_mem_cons]

end Sane

theorem oilPrototypeParse_declared {params : List (List Char × List Char)} (nonempty : params ≠ [])
    (declared : ∀ d ∈ params, d.1 ∈ parameterTypes ∧ IsIdentifier d.2) :
    ((oilPrototypeParse (", ".toList.intercalate (params.map fun d => d.1 ++ ' ' :: d.2))).isSome ↔
        Testable params) ∧
      ∀ read, oilPrototypeParse (", ".toList.intercalate (params.map fun d => d.1 ++ ' ' :: d.2)) = some read →
        List.Forall₂ ReadAs params read := by
  have parts := parts_declared nonempty declared
  generalize ", ".toList.intercalate (params.map fun d => d.1 ++ ' ' :: d.2) = prototype at parts
  have mapM_parts : (prototype.splitOn ',').mapM (fun part => oilParamParse (strstrip part)) =
      params.mapM fun d => oilParamParse (d.1 ++ ' ' :: d.2) := by
    calc
      _ = ((prototype.splitOn ',').map strstrip).mapM oilParamParse := List.mapM_map.symm
      _ = _ := by rw [parts, List.mapM_map]; rfl
  have count : (prototype.splitOn ',').length = params.length := by
    rw [← List.length_map strstrip, parts, List.length_map]
  have readAs {read : List OilParameter}
      (mapped : params.mapM (fun d => oilParamParse (d.1 ++ ' ' :: d.2)) = some read) :
      List.Forall₂ ReadAs params read :=
    ((List.forall₂_and_left _ _).mpr ⟨declared, forall₂_of_mapM mapped⟩).imp fun d p ⟨⟨type, identifier⟩, one⟩ =>
      (oilParamParse_declared type identifier).mp one
  refine ⟨⟨fun accepted => ?_, fun testable => ?_⟩, fun read accepted => ?_⟩
  · obtain ⟨few, _⟩ := oilPrototypeParse_isSome accepted
    obtain ⟨read, parsed⟩ := Option.isSome_iff_exists.mp accepted
    obtain ⟨mapped, sane⟩ := parts_of_accepted parsed
    rw [mapM_parts] at mapped
    refine ⟨count ▸ few, fun d member => ?_, (sane_iff (readAs mapped)).mp sane⟩
    obtain ⟨p, _, one⟩ := exists_mapM_of_mem mapped member
    obtain ⟨type, identifier⟩ := declared d member
    obtain ⟨name, text, known, supported, _⟩ := (oilParamParse_declared type identifier).mp one
    exact ⟨known, name, text, supported⟩
  · have each : (params.mapM fun d => oilParamParse (d.1 ++ ' ' :: d.2)).isSome := by
      refine mapM_isSome_iff.mpr fun d member => ?_
      obtain ⟨type, identifier⟩ := declared d member
      obtain ⟨known, name, text, supported⟩ := testable.known d member
      have one := (oilParamParse_declared type identifier).mpr ⟨name, text, known, supported, rfl⟩
      exact Option.isSome_of_eq_some one
    rw [← mapM_parts, mapM_isSome_iff] at each
    obtain ⟨read, _, parsed⟩ := oilPrototypeParse_of_wellFormed (count ▸ testable.few)
      (fun part member => (oilParamParse_isSome_iff part).mp (each part member))
      fun read mapped => (sane_iff (readAs (mapM_parts ▸ mapped))).mpr testable.scaled
    exact Option.isSome_of_eq_some parsed
  · exact readAs (mapM_parts ▸ (parts_of_accepted accepted).1)

/-- The tester accepts the prototypes of the classes that can be tested and no others, and each
parameter of theirs is read as it is declared. -/
theorem prototypes_as_declared (deffile : List Char) :
    List.Forall₂ (fun node vars =>
        ((oilPrototypeParse vars.paramList).isSome ↔ Testable node.prototype.2) ∧
          ∀ read, oilPrototypeParse vars.paramList = some read → List.Forall₂ ReadAs node.prototype.2 read)
      (parse deffile) (registrations deffile) := by
  refine fillAll_forall₂ (fun node member checker profiler => ?_) _ _
  obtain ⟨line, _, parsed⟩ := parseFrom_node member
  have whole : parsePrototype line = .ok (node.prototype.1, node.prototype.2) := parsed
  exact oilPrototypeParse_declared (parsePrototype_types whole).1 (parsePrototype_words whole).2

end Oil.Test.RegClasses
