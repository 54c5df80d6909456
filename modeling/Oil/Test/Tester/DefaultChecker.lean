import Oil.Test.Parameter.Language
import Oil.Test.Tester.Accesses

namespace Oil.Test

open Oil.Data

/-! # The types the default checker meets

The type of a parameter comes from its star and its type word, and whether it is taken for
an array comes from its name. -/

section Loops

variable {σ : Type} (draw : OilType → σ → (Nat → UInt8) × σ)

/-- The loop of `oil_checker_sample_generator`: the stores it makes for each parameter, from one
generator; none where it aborts. -/
def oilCheckerSampleGenerator : List OilParameter → σ → Option (List (List (Int × UInt8)) × σ)
  | [], r => some ([], r)
  | p :: params, r =>
      if p.isPointer = true ∧ (p.argClass = .src ∨ p.argClass = .inplace) then do
        let (stores, r) ← oilRandizeArrayDefault draw r p.header p.cType p.preN p.stride p.postN
        let (rest, r) ← oilCheckerSampleGenerator params r
        pure (stores :: rest, r)
      else do
        let (rest, r) ← oilCheckerSampleGenerator params r
        pure ([] :: rest, r)

end Loops

/-- The loop of `oil_checker_check_result`: what it reads of each parameter; none where it aborts. -/
def oilCheckerCheckResult (params : List OilParameter) : Option (List (List Int)) := params.mapM resultReads

/-- In no test of these parameters does the default checker abort. -/
def CheckerNeverAborts (params : List OilParameter) : Prop :=
  ∀ (config : TestConfig) (guards : ArgType → Int8) (σ : Type) (draw : OilType → σ → (Nat → UInt8) × σ) (r : σ),
    (oilCheckerSampleGenerator draw (calcSampleLayout config guards params) r).isSome ∧
      (oilCheckerCheckResult (calcSampleLayout config guards params)).isSome

/-- `OIL_TYPE_s8p` to `OIL_TYPE_f64p` -/
def OilType.isPointer : OilType → Bool
  | .s8p | .u8p | .s16p | .u16p | .s32p | .u32p | .s64p | .u64p | .f32p | .f64p => true
  | _ => false

def NameSpelling.isArray : NameSpelling → Bool
  | .array _ _ _ => true
  | _ => false

/-- The parameter has a star if and only if its name is an array's. -/
def StarredLikeArray (text : List Char) : Prop :=
  ∀ s : Spelling, s.text = text → s.separator.starred = s.name.isArray

theorem elementWidth_isSome (type : OilType) : (elementWidth type).isSome = type.isPointer := by
  cases type <;> rfl

section Parsed

theorem oilTypeParse_isPointer {typeName : List Char} {starred : Bool}
    (known : oilTypeParse typeName starred ≠ .unknown) :
    (oilTypeParse typeName starred).isPointer = starred := by
  have listed (types : List OilType) (same : ∀ type ∈ types, type.isPointer = starred) (i : Option Nat)
      (known : (i.bind fun i => types[i]?).getD .unknown ≠ .unknown) :
      ((i.bind fun i => types[i]?).getD .unknown).isPointer = starred := by
    cases found : i.bind fun i => types[i]? with
    | none => exact absurd (by rw [found]; rfl) known
    | some type =>
        obtain ⟨j, _, there⟩ := Option.bind_eq_some_iff.mp found
        exact same type (List.mem_of_getElem? there)
  cases starred with
  | true =>
      rw [oilTypeParse, if_pos rfl] at known ⊢
      exact listed _ (by decide) _ known
  | false =>
      rw [oilTypeParse, if_neg Bool.false_ne_true] at known ⊢
      split
      · rfl
      case isFalse notInt =>
        rw [if_neg notInt] at known
        exact listed _ (by decide) _ known

theorem NameSpelling.parameter_isPointer (name : NameSpelling) (cType : OilType) :
    (name.parameter { cType }).isPointer = name.isArray ∧ (name.parameter { cType }).cType = cType := by
  cases name <;> exact ⟨rfl, rfl⟩

/-- What the parser takes from the name, and what it takes from the star. -/
theorem starredLikeArray_iff {part : List Char} {p : OilParameter} (parsed : oilParamParse (strstrip part) = some p) :
    StarredLikeArray (strstrip part) ↔ p.isPointer = p.cType.isPointer := by
  obtain ⟨s, text⟩ := spelling_of_oilParamParse parsed
  rw [← text, oilParamParse_text, Reading.parameter] at parsed
  split at parsed
  · contradiction
  case isFalse known =>
    obtain ⟨named, typed⟩ := s.reading.name.parameter_isPointer (oilTypeParse s.reading.typeName s.reading.starred)
    have starred := oilTypeParse_isPointer fun unknown => known (.inl unknown)
    obtain rfl := Option.some.inj parsed
    dsimp only
    rw [named, typed, starred]
    constructor
    · exact fun alike => (alike s text).symm
    · intro same s' text'
      have reading := Spelling.reading_of_text (text'.trans text.symm)
      have sameStar : s'.separator.starred = s.reading.starred := congrArg Reading.starred reading
      have sameName : s'.name = s.reading.name := congrArg Reading.name reading
      rw [sameStar, sameName, same]

end Parsed

section Aborts

variable {σ : Type} {params : List OilParameter}

theorem oilCheckerSampleGenerator_isSome (draw : OilType → σ → (Nat → UInt8) × σ)
    (typed : ∀ p ∈ params, p.isPointer = true → p.cType.isPointer = true) (r : σ) :
    (oilCheckerSampleGenerator draw params r).isSome := by
  induction params generalizing r with
  | nil => rfl
  | cons p params ih =>
      have rest (r : σ) := Option.isSome_iff_exists.mp (ih (fun q member => typed q (.tail _ member)) r)
      rw [oilCheckerSampleGenerator]
      split
      case isTrue sampled =>
        have known : (elementWidth p.cType).isSome := by
          rw [elementWidth_isSome]
          exact typed p (.head _) sampled.1
        obtain ⟨width, found⟩ := Option.isSome_iff_exists.mp known
        obtain ⟨result, ran⟩ := rest (fillRows draw p.cType width p.header p.stride p.preN.toNat p.postN.toNat 0 r).2
        simp only [oilRandizeArrayDefault, found, Option.map_some, Option.bind_eq_bind, Option.bind_some, ran]
        rfl
      case isFalse =>
        obtain ⟨result, ran⟩ := rest r
        simp only [Option.bind_eq_bind, ran, Option.bind_some]
        rfl

theorem oilCheckerCheckResult_isSome (typed : ∀ p ∈ params, p.isPointer = true → p.cType.isPointer = true) :
    (oilCheckerCheckResult params).isSome := by
  rw [oilCheckerCheckResult, mapM_isSome_iff]
  intro p member
  rw [resultReads]
  split
  case isTrue checked =>
    rw [checkArrayReads, Option.isSome_map, elementWidth_isSome]
    exact typed p member checked.1
  case isFalse => rfl

/-- Where pointers have the types of pointers, the default checker knows what to do with them. -/
theorem checkerNeverAborts_of_typed (typed : ∀ p ∈ params, p.isPointer = true → p.cType.isPointer = true) :
    CheckerNeverAborts params := by
  intro config guards σ draw r
  have sameTypes : (calcSampleLayout config guards params).map (fun p => (p.isPointer, p.cType)) =
      params.map fun p => (p.isPointer, p.cType) :=
    calcSampleLayout_map (fun _ _ _ _ _ _ _ _ _ => rfl) config guards params
  have typedAfter : ∀ q ∈ calcSampleLayout config guards params, q.isPointer = true → q.cType.isPointer = true := by
    intro q member isPointer
    have before := List.mem_map_of_mem (f := fun p : OilParameter => (p.isPointer, p.cType)) member
    rw [sameTypes] at before
    obtain ⟨p, inParams, same⟩ := List.mem_map.mp before
    obtain ⟨samePointer, sameType⟩ := Prod.mk.inj same
    rw [← sameType]
    exact typed p inParams (samePointer.trans isPointer)
  exact ⟨oilCheckerSampleGenerator_isSome draw typedAfter r, oilCheckerCheckResult_isSome typedAfter⟩

end Aborts

/-- In an accepted prototype the arrays are the parameters with pointer types, and the default
checker aborts in no test of it, exactly if the stars are those of the array names. -/
theorem pointers_typed_iff {prototype : List Char} {params : List OilParameter}
    (accepted : oilPrototypeParse prototype = some params) :
    ((∀ p ∈ params, p.isPointer = true ↔ p.cType.isPointer = true) ∧ CheckerNeverAborts params) ↔
      ∀ part ∈ prototype.splitOn ',', StarredLikeArray (strstrip part) := by
  obtain ⟨mapped, _⟩ := parts_of_accepted accepted
  constructor
  · rintro ⟨typed, _⟩ part inside
    obtain ⟨p, member, parsed⟩ := exists_mapM_of_mem mapped inside
    exact (starredLikeArray_iff parsed).mpr (Bool.eq_iff_iff.mpr (typed p member))
  · intro alike
    have typed : ∀ p ∈ params, p.isPointer = true ↔ p.cType.isPointer = true := by
      intro p member
      obtain ⟨part, inside, parsed⟩ := exists_of_mem_mapM mapped p member
      exact Bool.eq_iff_iff.mp ((starredLikeArray_iff parsed).mp (alike part inside))
    exact ⟨typed, checkerNeverAborts_of_typed fun p member => (typed p member).mp⟩

theorem pointers_typed_starred : ∃ params, oilPrototypeParse "uint8_t *d, int ds, int n".toList = some params ∧
    (∀ p ∈ params, p.isPointer = true ↔ p.cType.isPointer = true) ∧ CheckerNeverAborts params := by
  have returns : (oilPrototypeParse "uint8_t *d, int ds, int n".toList).isSome := by decide +kernel
  have parts : "uint8_t *d, int ds, int n".toList.splitOn ',' =
      ["uint8_t *d".toList, " int ds".toList, " int n".toList] := by decide +kernel
  have alike : ∀ part ∈ ["uint8_t *d".toList, " int ds".toList, " int n".toList],
      ∃ p, oilParamParse (strstrip part) = some p ∧ p.isPointer = p.cType.isPointer := by
    have all : ∀ part ∈ ["uint8_t *d".toList, " int ds".toList, " int n".toList],
        (oilParamParse (strstrip part)).map (fun p => decide (p.isPointer = p.cType.isPointer)) = some true := by
      decide +kernel
    intro part inside
    obtain ⟨p, parsed, same⟩ := Option.map_eq_some_iff.mp (all part inside)
    exact ⟨p, parsed, of_decide_eq_true same⟩
  obtain ⟨params, accepted⟩ := Option.isSome_iff_exists.mp returns
  refine ⟨params, accepted, (pointers_typed_iff accepted).mpr fun part inside => ?_⟩
  rw [parts] at inside
  obtain ⟨p, parsed, same⟩ := alike part inside
  exact (starredLikeArray_iff parsed).mpr same

/-- An array of `int` is accepted, and the sample generator aborts on it. -/
theorem int_array_aborts : ∃ params, oilPrototypeParse "int s1, int n".toList = some params ∧
    (∃ p ∈ params, p.isPointer = true ∧ p.cType.isPointer = false) ∧ ¬ CheckerNeverAborts params := by
  have accepted : oilPrototypeParse "int s1, int n".toList =
      some ((oilPrototypeParse "int s1, int n".toList).getD []) := by decide +kernel
  refine ⟨_, accepted, by decide +kernel, fun never => ?_⟩
  have generated := (never ⟨0, 0, 0, 0, 1⟩ (fun _ => 0) Unit (fun _ _ => (fun _ => 0, ())) ()).1
  have aborts : (oilCheckerSampleGenerator (fun _ _ => (fun _ => 0, ()))
      (calcSampleLayout ⟨0, 0, 0, 0, 1⟩ (fun _ => 0) ((oilPrototypeParse "int s1, int n".toList).getD [])) ()).isSome =
      false := by decide +kernel
  rw [aborts] at generated
  contradiction

end Oil.Test
