import Oil.Test.Parameter.Accepted
import Oil.Test.Parameter.Matched

namespace Oil.Test

open Oil.Data

/-! # The prototypes that are accepted -/

/-- The index of an argument, which is 1 where no digit is given. -/
def indexNumber : Option Digit → Nat
  | none => 1
  | some digit => digit.1.toNat - '0'.toNat

/-- The largest index there is an argument type for. -/
def Direction.most : Direction → Nat
  | i => 2
  | s => 5
  | d => 3

/-- There is a type of this name: `int` is not pointed to. -/
def SupportedType (typeName : List Char) (starred : Bool) : Prop :=
  (∃ name ∈ oilCTypeNames, typeName = name.toList) ∨ typeName = "int".toList ∧ starred = false

def NameSpelling.Supported : NameSpelling → Prop
  | scale _ => True
  | stride dir index | array dir index _ => 1 ≤ indexNumber index ∧ indexNumber index ≤ dir.most

def Spelling.Supported (s : Spelling) : Prop :=
  SupportedType s.type.word.1 s.separator.starred ∧ s.name.Supported

def WellFormedParameter (text : List Char) : Prop := ∃ s : Spelling, s.text = text ∧ s.Supported

/-- A well-formed scale parameter of the given name. -/
def ScaleParameter (v : ScaleVar) (text : List Char) : Prop :=
  ∃ s : Spelling, s.text = text ∧ s.Supported ∧ s.name = .scale v

section Parameters

theorem oilTypeParse_known_iff (typeName : List Char) (starred : Bool) :
    oilTypeParse typeName starred ≠ .unknown ↔ SupportedType typeName starred := by
  have listed (types : List OilType) (length : types.length = oilCTypeNames.length) (known : .unknown ∉ types) :
      ((oilCTypeNames.findIdx? fun name => typeName = name.toList).bind fun i => types[i]?).getD .unknown ≠
        .unknown ↔ ∃ name ∈ oilCTypeNames, typeName = name.toList := by
    cases found : oilCTypeNames.findIdx? fun name => typeName = name.toList with
    | none =>
        rw [List.findIdx?_eq_none_iff] at found
        simpa using found
    | some i =>
        obtain ⟨bound, here, _⟩ := List.findIdx?_eq_some_iff_getElem.mp found
        have inTypes : i < types.length := length ▸ bound
        simp only [Option.bind_some, List.getElem?_eq_getElem inTypes, Option.getD_some]
        refine iff_of_true (fun unknown => known (unknown ▸ List.getElem_mem inTypes)) ?_
        exact ⟨_, List.getElem_mem bound, of_decide_eq_true here⟩
  cases starred with
  | true =>
      simp only [oilTypeParse, ↓reduceIte, SupportedType, Bool.true_eq_false, and_false, or_false]
      exact listed _ rfl (by decide)
  | false =>
      simp only [oilTypeParse, Bool.false_eq_true, ↓reduceIte, SupportedType, and_true]
      by_cases isInt : typeName = "int".toList
      · simp [isInt]
      · rw [if_neg isInt]
        simp only [isInt, or_false]
        exact listed _ rfl (by decide)

theorem indexNumber_lt (index : Option Digit) : indexNumber index < 10 := by
  cases index with
  | none => decide
  | some digit =>
      obtain ⟨c, isDigit⟩ := digit
      have above : c.toNat ≤ '9'.toNat := (isDigit_iff.mp isDigit).2
      have nine : '9'.toNat = 57 := rfl
      have zero : '0'.toNat = 48 := rfl
      simp only [indexNumber]
      omega

theorem indexValue_indexText (index : Option Digit) : indexValue (indexText index) = indexNumber index := by
  cases index with
  | none => rfl
  | some digit =>
      obtain ⟨c, isDigit⟩ := digit
      have below : '0'.toNat ≤ c.toNat := (isDigit_iff.mp isDigit).1
      simp only [indexValue, indexText, indexNumber]
      omega

theorem argTypeParse_known_iff (dir : Direction) (isStride : Bool) (index : Option Digit) :
    argTypeParse dir.argClass isStride (indexValue (indexText index)) ≠ .unknown ↔
      1 ≤ indexNumber index ∧ indexNumber index ≤ dir.most := by
  have table : ∀ number : Fin 10, argTypeParse dir.argClass isStride (number : Nat) ≠ .unknown ↔
      1 ≤ (number : Nat) ∧ (number : Nat) ≤ dir.most := by
    cases dir <;> cases isStride <;> decide
  rw [indexValue_indexText]
  exact table ⟨indexNumber index, indexNumber_lt index⟩

theorem Spelling.parameter_isSome_iff (s : Spelling) (paramStr : List Char) :
    (s.reading.parameter paramStr).isSome ↔ s.Supported := by
  have arguments : argTypeParse (s.name.parameter { cType := oilTypeParse s.type.word.1 s.separator.starred }).argClass
      (s.name.parameter { cType := oilTypeParse s.type.word.1 s.separator.starred }).isStride
      (s.name.parameter { cType := oilTypeParse s.type.word.1 s.separator.starred }).index ≠ .unknown ↔
      s.name.Supported := by
    cases s.name with
    | scale v =>
        have known : argTypeParse .scale false 0 ≠ .unknown := by decide
        exact iff_of_true known trivial
    | stride dir index => exact argTypeParse_known_iff dir true index
    | array dir index lengths => exact argTypeParse_known_iff dir false index
  rw [Supported, ← oilTypeParse_known_iff, ← arguments, Reading.parameter, reading]
  dsimp only
  split
  case isTrue unknown => exact iff_of_false (by simp) fun known => unknown.elim known.1 known.2
  case isFalse known => exact iff_of_true rfl (not_or.mp known)

/-- The parser of one parameter accepts the documented syntax. -/
theorem oilParamParse_isSome_iff (part : List Char) :
    (oilParamParse (strstrip part)).isSome ↔ WellFormedParameter (strstrip part) := by
  constructor
  · intro accepted
    obtain ⟨p, parsed⟩ := Option.isSome_iff_exists.mp accepted
    obtain ⟨s, text⟩ := spelling_of_oilParamParse parsed
    refine ⟨s, text, (s.parameter_isSome_iff s.text).mp ?_⟩
    rwa [← oilParamParse_text, text]
  · rintro ⟨s, text, supported⟩
    rw [← text, oilParamParse_text]
    exact (s.parameter_isSome_iff s.text).mpr supported

end Parameters

/-! ## Splitting the prototype -/

theorem Spelling.no_comma (s : Spelling) : ',' ∉ s.text := by
  have words {text : List Char} (all : ∀ c ∈ text, isWordChar c = true) : ',' ∉ text :=
    fun member => absurd (all ',' member) (by decide)
  have blanks {text : List Char} (all : ∀ c ∈ text, isSpace c = true) : ',' ∉ text :=
    fun member => absurd (all ',' member) (by decide)
  have type : ',' ∉ s.type.text := by
    cases s.type with
    | plain word => exact words word.isWord
    | constBefore gap word =>
        simp only [TypeSpelling.text, List.mem_append, not_or]
        exact ⟨by decide, blanks gap.2.2, words word.isWord⟩
    | constAfter word gap =>
        simp only [TypeSpelling.text, List.mem_append, not_or]
        exact ⟨words word.isWord, blanks gap.2.2, by decide⟩
  have separator : ',' ∉ s.separator.text := by
    cases s.separator with
    | star left right =>
        simp only [Separator.text, List.mem_append, List.mem_cons, not_or]
        exact ⟨blanks left.2, by decide, blanks right.2⟩
    | gap gap => exact blanks gap.2.2
  simp only [text, List.mem_append, not_or]
  exact ⟨type, separator, words s.name.isWord⟩

theorem mem_strstrip {c : Char} {text : List Char} (member : c ∈ text) (kept : isSpace c = false) :
    c ∈ strstrip text := by
  have inFront : c ∈ text.dropWhile isSpace := by
    rw [← List.takeWhile_append_dropWhile (p := isSpace) (l := text), List.mem_append] at member
    rcases member with blank | later
    · simp [List.mem_takeWhile_imp blank] at kept
    · exact later
  rw [← List.rdropWhile_append_rtakeWhile (p := isSpace) (l := text.dropWhile isSpace), List.mem_append] at inFront
  rcases inFront with inside | blank
  · exact inside
  · simp [List.mem_rtakeWhile_imp blank] at kept

/-- Where there are too many parts, the last token keeps the commas between the rest. -/
theorem strsplit_spec (more : Nat) (text : List Char) :
    ((text.splitOn ',').length ≤ more + 1 ∧ strsplit more text = text.splitOn ',') ∨
      (more + 1 < (text.splitOn ',').length ∧ ∃ token ∈ strsplit more text, ',' ∈ token) := by
  induction more generalizing text with
  | zero =>
      by_cases comma : ',' ∈ text
      · right
        obtain ⟨front, back, rfl, first⟩ := List.eq_append_cons_of_mem comma
        refine ⟨?_, _, List.mem_singleton.mpr rfl, comma⟩
        rw [List.splitOn_append_cons_self_of_not_mem first]
        have := List.length_pos_of_ne_nil (List.splitOn_ne_nil ',' back)
        simpa using this
      · rw [List.splitOn_eq_singleton comma]
        exact .inl ⟨Nat.le_refl _, rfl⟩
  | succ more ih =>
      by_cases comma : ',' ∈ text
      · obtain ⟨front, back, rfl, first⟩ := List.eq_append_cons_of_mem comma
        have position : (front ++ ',' :: back).findIdx? (· = ',') = some front.length := by
          rw [List.findIdx?_append, List.findIdx?_eq_none_iff.mpr, Option.none_or, List.findIdx?_cons]
          · simp
          · exact fun c member => decide_eq_false fun same => first (same ▸ member)
        have split : strsplit (more + 1) (front ++ ',' :: back) = front :: strsplit more back := by
          simp [strsplit, position]
        rw [List.splitOn_append_cons_self_of_not_mem first, split, List.length_cons]
        rcases ih back with ⟨few, same⟩ | ⟨many, token, member, inside⟩
        · exact .inl ⟨Nat.succ_le_succ few, by rw [same]⟩
        · exact .inr ⟨Nat.succ_lt_succ many, token, .tail _ member, inside⟩
      · rw [List.splitOn_eq_singleton comma]
        have whole : text.findIdx? (· = ',') = none := List.findIdx?_eq_none_iff.mpr fun c member =>
          decide_eq_false fun same => comma (same ▸ member)
        exact .inl ⟨by simp, by simp only [strsplit, whole]⟩

theorem oilPrototypeParse_isSome {prototype : List Char} (accepted : (oilPrototypeParse prototype).isSome) :
    (prototype.splitOn ',').length ≤ maxParams ∧
      ∀ part ∈ prototype.splitOn ',', WellFormedParameter (strstrip part) := by
  obtain ⟨params, parsed⟩ := Option.isSome_iff_exists.mp accepted
  rw [oilPrototypeParse] at parsed
  split at parsed
  · contradiction
  obtain ⟨all, mapped, _⟩ := Option.bind_eq_some_iff.mp parsed
  have tokens := mapM_isSome_iff.mp (Option.isSome_of_eq_some mapped)
  rcases strsplit_spec (maxParams - 1) prototype with ⟨few, same⟩ | ⟨_, token, member, comma⟩
  · rw [same] at tokens
    exact ⟨few, fun part member => (oilParamParse_isSome_iff part).mp (tokens part member)⟩
  · obtain ⟨s, text, _⟩ := (oilParamParse_isSome_iff token).mp (tokens token member)
    exact absurd (text ▸ mem_strstrip comma (by decide)) s.no_comma

theorem oilPrototypeParse_of_wellFormed {prototype : List Char}
    (few : (prototype.splitOn ',').length ≤ maxParams)
    (wellFormed : ∀ part ∈ prototype.splitOn ',', WellFormedParameter (strstrip part))
    (sane : ∀ params, (prototype.splitOn ',').mapM (fun part => oilParamParse (strstrip part)) = some params →
      prototypeCheckSanity params = true) :
    ∃ params, (prototype.splitOn ',').mapM (fun part => oilParamParse (strstrip part)) = some params ∧
      oilPrototypeParse prototype = some params := by
  have nonEmpty : prototype ≠ [] := by
    rintro rfl
    obtain ⟨s, text, _⟩ := wellFormed [] (by rw [List.splitOn_nil]; exact .head _)
    have : s.text ≠ [] := by simp [Spelling.text, s.name.text_ne_nil]
    exact this text
  rcases strsplit_spec (maxParams - 1) prototype with ⟨_, same⟩ | ⟨many, _⟩
  · obtain ⟨params, mapped⟩ := Option.isSome_iff_exists.mp (mapM_isSome_iff.mpr fun part member =>
      (oilParamParse_isSome_iff part).mpr (wellFormed part member))
    refine ⟨params, mapped, ?_⟩
    rw [oilPrototypeParse, if_neg nonEmpty, same, mapped, Option.bind_eq_bind, Option.bind_some,
      if_pos (sane params mapped)]
    rfl
  · have : maxParams - 1 + 1 = maxParams := rfl
    omega

theorem argType_of_scaleParameter {v : ScaleVar} {part : List Char} {p : OilParameter}
    (scale : ScaleParameter v (strstrip part)) (parsed : oilParamParse (strstrip part) = some p) :
    p.argType = .n := by
  obtain ⟨s, text, _, name⟩ := scale
  rw [← text, oilParamParse_text, Reading.parameter, Spelling.reading, name] at parsed
  dsimp only at parsed
  split at parsed
  · contradiction
  · obtain rfl := Option.some.inj parsed
    rfl

/-- The accepted language, for prototypes with a scale parameter named `n`: it is the
documented one, of up to `maxParams` parameters. -/
theorem oilPrototypeParse_accepts_iff (prototype : List Char)
    (scaled : ∃ part ∈ prototype.splitOn ',', ScaleParameter .n (strstrip part)) :
    (oilPrototypeParse prototype).isSome ↔
      (prototype.splitOn ',').length ≤ 22 ∧
        ∀ part ∈ prototype.splitOn ',', WellFormedParameter (strstrip part) := by
  constructor
  · exact oilPrototypeParse_isSome
  · rintro ⟨few, wellFormed⟩
    obtain ⟨part, member, scale⟩ := scaled
    obtain ⟨params, _, parsed⟩ := oilPrototypeParse_of_wellFormed few wellFormed fun params mapped => by
      obtain ⟨p, inParams, one⟩ := exists_mapM_of_mem mapped member
      rw [prototypeCheckSanity, Bool.or_eq_true, List.any_eq_true]
      exact .inl ⟨p, inParams, by simp [argType_of_scaleParameter scale one]⟩
    exact Option.isSome_of_eq_some parsed

def intWord : Identifier := ⟨"int".toList, 'i', ['n', 't'], rfl, by decide, List.all_eq_true.mp (by decide)⟩

/-- `int n` or `int m`. -/
def Spelling.intScale (gap : Gap) (v : ScaleVar) : Spelling := ⟨.plain intWord, .gap gap, .scale v⟩

theorem Spelling.scaleParameter_intScale (gap : Gap) (v : ScaleVar) : ScaleParameter v (intScale gap v).text :=
  ⟨_, rfl, ⟨.inr ⟨rfl, rfl⟩, trivial⟩, rfl⟩

def oneSpace : Gap := ⟨[' '], by decide, List.all_eq_true.mp (by decide)⟩

def stridedPrototype : List Char := "double *d_nx8, int ds, const uint8_t *s_nx8, int ss, int n".toList

/-- A part that is separated by no blank does not belong to the language. -/
def brokenPrototype : List Char := "double *d_nx8, intds, int n".toList

theorem oilPrototypeParse_accepts_strided :
    (∀ part ∈ stridedPrototype.splitOn ',', WellFormedParameter (strstrip part)) ∧
      ¬ ∀ part ∈ brokenPrototype.splitOn ',', WellFormedParameter (strstrip part) := by
  have scale : ScaleParameter .n "int n".toList := Spelling.scaleParameter_intScale oneSpace .n
  have accepted : (oilPrototypeParse stridedPrototype).isSome := by decide +kernel
  have rejected : ¬ (oilPrototypeParse brokenPrototype).isSome := by decide +kernel
  have scaled : ∃ part ∈ stridedPrototype.splitOn ',', ScaleParameter .n (strstrip part) :=
    ⟨" int n".toList, by decide +kernel, scale⟩
  have scaledBroken : ∃ part ∈ brokenPrototype.splitOn ',', ScaleParameter .n (strstrip part) :=
    ⟨" int n".toList, by decide +kernel, scale⟩
  exact ⟨((oilPrototypeParse_accepts_iff stridedPrototype scaled).mp accepted).2, fun wellFormed =>
    rejected ((oilPrototypeParse_accepts_iff brokenPrototype scaledBroken).mpr ⟨by decide +kernel, wellFormed⟩)⟩

/-! ## Scale parameters -/

/-- The argument types tell `n` from `m`, and an array whose length depends on `n` comes with
a parameter `n`. -/
structure ScalesTold (params : List OilParameter) : Prop where
  n : ∀ p ∈ params, ScaleParameter .n p.parameter → p.argType = .n
  m : ∀ p ∈ params, ScaleParameter .m p.parameter → p.argType = .m
  dependent : (∃ p ∈ params, p.isPointer = true ∧ (p.prestrideVar = 1 ∨ p.poststrideVar = 1)) →
    ∃ p ∈ params, ScaleParameter .n p.parameter

theorem scale_of_argTypeParse {argClass : ArgClass} {isStride : Bool} {index : Int} {argType : ArgType}
    (parsed : argTypeParse argClass isStride index = argType) (scale : argType = .n ∨ argType = .m) :
    argClass = .scale := by
  rw [argTypeParse] at parsed
  cases found : argTypeMap.find? fun entry =>
      argClass = entry.2.1 && isStride = entry.2.2.1 && index = entry.2.2.2 with
  | none =>
      rw [found] at parsed
      rw [← parsed] at scale
      exact absurd scale (by decide)
  | some entry =>
      rw [found] at parsed
      rw [← parsed] at scale
      have classes : ∀ entry ∈ argTypeMap, entry.1 = .n ∨ entry.1 = .m → entry.2.1 = .scale := by decide
      have matched := List.find?_some found
      simp only [Bool.and_eq_true, decide_eq_true_eq] at matched
      exact matched.1.1.trans (classes entry (List.mem_of_find?_eq_some found) scale)

theorem parameter_of_oilParamParse {part : List Char} {p : OilParameter}
    (parsed : oilParamParse (strstrip part) = some p) : p.parameter = strstrip part := by
  obtain ⟨s, text⟩ := spelling_of_oilParamParse parsed
  rw [← text, oilParamParse_text, Reading.parameter] at parsed
  split at parsed
  · contradiction
  · obtain rfl := Option.some.inj parsed
    exact text

theorem scaleParameter_of_argType {part : List Char} {p : OilParameter}
    (parsed : oilParamParse (strstrip part) = some p) (isN : p.argType = .n) :
    ∃ v, ScaleParameter v (strstrip part) := by
  obtain ⟨s, text, supported⟩ := (oilParamParse_isSome_iff part).mp (Option.isSome_of_eq_some parsed)
  rw [← text, oilParamParse_text, Reading.parameter] at parsed
  split at parsed
  · contradiction
  obtain rfl := Option.some.inj parsed
  cases name : s.name with
  | scale v => exact ⟨v, s, text, supported, name⟩
  | stride dir index =>
      simp only [Spelling.reading, name] at isN
      have := scale_of_argTypeParse isN (.inl rfl)
      cases dir <;> contradiction
  | array dir index lengths =>
      simp only [Spelling.reading, name] at isN
      have := scale_of_argTypeParse isN (.inl rfl)
      cases dir <;> contradiction

/-- Every accepted parameter comes from a part of the prototype, and the other way round. -/
theorem parts_of_accepted {prototype : List Char} {params : List OilParameter}
    (accepted : oilPrototypeParse prototype = some params) :
    (prototype.splitOn ',').mapM (fun part => oilParamParse (strstrip part)) = some params ∧
      prototypeCheckSanity params = true := by
  obtain ⟨few, wellFormed⟩ := oilPrototypeParse_isSome (Option.isSome_of_eq_some accepted)
  rw [oilPrototypeParse] at accepted
  split at accepted
  · contradiction
  obtain ⟨all, mapped, accepted⟩ := Option.bind_eq_some_iff.mp accepted
  split at accepted
  case isFalse => contradiction
  case isTrue sane =>
    obtain rfl := Option.some.inj accepted
    rcases strsplit_spec (maxParams - 1) prototype with ⟨_, same⟩ | ⟨many, _⟩
    · exact ⟨same ▸ mapped, sane⟩
    · have : maxParams - 1 + 1 = maxParams := rfl
      omega

/-- The table has one key for `n` and `m`, so every scale parameter gets the type of `n`; it
is told apart exactly where there is no parameter named `m`. -/
theorem scales_told_iff {prototype : List Char} {params : List OilParameter}
    (accepted : oilPrototypeParse prototype = some params) :
    ScalesTold params ↔ ∀ part ∈ prototype.splitOn ',', ¬ ScaleParameter .m (strstrip part) := by
  obtain ⟨mapped, sane⟩ := parts_of_accepted accepted
  have source {p : OilParameter} (member : p ∈ params) :
      ∃ part ∈ prototype.splitOn ',', oilParamParse (strstrip part) = some p :=
    exists_of_mem_mapM mapped p member
  constructor
  · intro told part member scale
    obtain ⟨p, inParams, parsed⟩ := exists_mapM_of_mem mapped member
    have isN := argType_of_scaleParameter scale parsed
    have isM := told.m p inParams (parameter_of_oilParamParse parsed ▸ scale)
    rw [isN] at isM
    contradiction
  · intro unnamed
    refine ⟨fun p member scale => ?_, fun p member scale => ?_, ?_⟩
    · obtain ⟨part, _, parsed⟩ := source member
      exact argType_of_scaleParameter (parameter_of_oilParamParse parsed ▸ scale) parsed
    · obtain ⟨part, inside, parsed⟩ := source member
      exact absurd (parameter_of_oilParamParse parsed ▸ scale) (unnamed part inside)
    · rintro ⟨p, member, isPointer, depends⟩
      rw [prototypeCheckSanity, Bool.or_eq_true, List.any_eq_true, List.all_eq_true] at sane
      rcases sane with ⟨q, inParams, isN⟩ | independent
      · obtain ⟨part, inside, parsed⟩ := source inParams
        obtain ⟨v, scale⟩ := scaleParameter_of_argType parsed (of_decide_eq_true isN)
        cases v with
        | n => exact ⟨q, inParams, parameter_of_oilParamParse parsed ▸ scale⟩
        | m => exact absurd scale (unnamed part inside)
      · -- without a scale parameter, no array may depend on `n`
        have fresh := oilPrototypeParse_fresh accepted p member
        obtain ⟨notScale, notStride⟩ := fresh.array isPointer
        have known := independent p member
        simp only [notStride, Bool.or_eq_true, decide_eq_true_eq, Bool.false_eq_true, false_or, Bool.and_eq_true]
          at known
        rcases known with scale | ⟨pre, post⟩
        · exact absurd (scale_of_argTypeParse fresh.argType.symm scale) notScale
        · exact absurd depends (not_or.mpr ⟨pre, post⟩)

theorem getLast?_of_scaleParameter {v : ScaleVar} {text : List Char} (scale : ScaleParameter v text) :
    text.getLast? = some v.letter := by
  obtain ⟨s, rfl, _, named⟩ := scale
  rw [Spelling.text, named, ← List.append_assoc, NameSpelling.text, List.getLast?_append, List.getLast?_singleton,
    Option.some_or]

def scaledTwice : List Char := "uint8_t *d_n, const uint8_t *s_m, int n, int m".toList

theorem scales_told_strided :
    (∃ params, oilPrototypeParse stridedPrototype = some params ∧ ScalesTold params) ∧
      ∃ params, oilPrototypeParse scaledTwice = some params ∧ ¬ ScalesTold params := by
  have accepted : (oilPrototypeParse stridedPrototype).isSome := by decide +kernel
  have acceptedTwice : (oilPrototypeParse scaledTwice).isSome := by decide +kernel
  obtain ⟨params, parsed⟩ := Option.isSome_iff_exists.mp accepted
  obtain ⟨twice, parsedTwice⟩ := Option.isSome_iff_exists.mp acceptedTwice
  have last : ∀ part ∈ stridedPrototype.splitOn ',', (strstrip part).getLast? ≠ some 'm' := by decide +kernel
  refine ⟨⟨params, parsed, (scales_told_iff parsed).mpr fun part member scale => ?_⟩,
    twice, parsedTwice, fun told => ?_⟩
  · exact last part member (getLast?_of_scaleParameter scale)
  · exact (scales_told_iff parsedTwice).mp told " int m".toList (by decide +kernel)
      (Spelling.scaleParameter_intScale oneSpace .m)

/-- A parameter named `m` is taken for `n`. -/
theorem scales_not_told_int_m :
    ¬ ∀ prototype params, oilPrototypeParse prototype = some params → ScalesTold params := by
  intro always
  have accepted : oilPrototypeParse "int m".toList =
      some [{ parameter := "int m".toList, cType := .int, argType := .n }] := by decide +kernel
  have isM := (always _ _ accepted).m _ (.head _) (Spelling.scaleParameter_intScale oneSpace .m)
  contradiction

end Oil.Test
