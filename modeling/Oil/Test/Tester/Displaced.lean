import Oil.Test.Parameter.Language
import Oil.Test.Tester.LaidOut

namespace Oil.Test

open Oil.Data

/-! # Parameters that displace each other

`_calc_sample_layout` keeps a table of the parameters by their argument types, in which a
later parameter takes the place of an earlier one of its type. -/

variable {params : List OilParameter}

/-- The direction of a parameter, whether it is a stride, and its index; none for the scale
parameters. -/
def NameSpelling.role : NameSpelling → Option (Direction × Bool × Nat)
  | scale _ => none
  | stride dir index => some (dir, true, indexNumber index)
  | array dir index _ => some (dir, false, indexNumber index)

/-- The two parameters are both scale parameters, or both strides or both arrays of one direction
and index. -/
def SameRole (text other : List Char) : Prop :=
  ∃ s t : Spelling, s.text = text ∧ t.text = other ∧ s.name.role = t.name.role

/-- No two parameters have one argument type, and the table holds every one of them. -/
structure NoneDisplaced (params : List OilParameter) : Prop where
  distinct : DistinctTypes params
  held : ∀ i p, params[i]? = some p → rearrange params p.argType = some i

theorem noneDisplaced_iff_distinct : NoneDisplaced params ↔ DistinctTypes params :=
  ⟨fun none => none.distinct, fun distinct => ⟨distinct, fun _ _ found => rearrange_eq distinct found⟩⟩

section Types

/-- The arguments with which the table of argument types is searched. -/
def roleKey : Option (Direction × Bool × Nat) → ArgClass × Bool × Int
  | none => (.scale, false, 0)
  | some (dir, isStride, index) => (dir.argClass, isStride, index)

theorem roleKey_inj {role other : Option (Direction × Bool × Nat)} (same : roleKey role = roleKey other) :
    role = other := by
  have notScale (dir : Direction) : dir.argClass ≠ .scale := by cases dir <;> decide
  have classes (dir dir' : Direction) (same : dir.argClass = dir'.argClass) : dir = dir' := by
    cases dir <;> cases dir' <;> first | rfl | contradiction
  cases role with
  | none =>
      cases other with
      | none => rfl
      | some other => exact absurd (congrArg Prod.fst same).symm (notScale other.1)
  | some role =>
      cases other with
      | none => exact absurd (congrArg Prod.fst same) (notScale role.1)
      | some other =>
          obtain ⟨dir, isStride, index⟩ := role
          obtain ⟨dir', isStride', index'⟩ := other
          simp only [roleKey, Prod.mk.injEq] at same
          obtain ⟨sameClass, sameKind, sameIndex⟩ := same
          rw [classes dir dir' sameClass, sameKind, Int.ofNat_inj.mp sameIndex]

/-- An entry of the table that is found. -/
theorem mem_argTypeMap {argClass : ArgClass} {isStride : Bool} {index : Int}
    (known : argTypeParse argClass isStride index ≠ .unknown) :
    (argTypeParse argClass isStride index, argClass, isStride, index) ∈ argTypeMap := by
  rw [argTypeParse] at known ⊢
  cases found : argTypeMap.find? fun entry =>
      argClass = entry.2.1 && isStride = entry.2.2.1 && index = entry.2.2.2 with
  | none =>
      rw [found] at known
      exact absurd rfl known
  | some entry =>
      have matched := List.find?_some found
      simp only [Bool.and_eq_true, decide_eq_true_eq] at matched
      obtain ⟨⟨rfl, rfl⟩, rfl⟩ := matched
      exact List.mem_of_find?_eq_some found

/-- No argument type is in the table twice. -/
theorem argTypeParse_inj {argClass argClass' : ArgClass} {isStride isStride' : Bool} {index index' : Int}
    (known : argTypeParse argClass isStride index ≠ .unknown)
    (same : argTypeParse argClass isStride index = argTypeParse argClass' isStride' index') :
    (argClass, isStride, index) = (argClass', isStride', index') := by
  have once : ∀ entry ∈ argTypeMap, ∀ other ∈ argTypeMap, entry.1 = other.1 → entry.2 = other.2 := by decide
  exact once _ (mem_argTypeMap known) _ (mem_argTypeMap (same ▸ known)) same

theorem argType_of_role {s : Spelling} {p : OilParameter} (parsed : oilParamParse s.text = some p) :
    p.argType ≠ .unknown ∧ p.argType = argTypeParse (roleKey s.name.role).1 (roleKey s.name.role).2.1
      (roleKey s.name.role).2.2 := by
  rw [oilParamParse_text, Reading.parameter, Spelling.reading] at parsed
  dsimp only at parsed
  split at parsed
  · contradiction
  case isFalse known =>
    obtain rfl := Option.some.inj parsed
    refine ⟨fun unknown => known (.inr unknown), ?_⟩
    cases s.name with
    | scale v => rfl
    | stride dir index => simp only [NameSpelling.parameter, NameSpelling.role, roleKey, indexValue_indexText]
    | array dir index lengths => simp only [NameSpelling.parameter, NameSpelling.role, roleKey, indexValue_indexText]

/-- Different spellings of one role get one argument type, and only these. -/
theorem argType_eq_iff_sameRole {text other : List Char} {p q : OilParameter}
    (parsed : oilParamParse (strstrip text) = some p) (parsedOther : oilParamParse (strstrip other) = some q) :
    p.argType = q.argType ↔ SameRole (strstrip text) (strstrip other) := by
  have role {s : Spelling} {text : List Char} {p : OilParameter} (spelled : s.text = strstrip text)
      (parsed : oilParamParse (strstrip text) = some p) := argType_of_role (spelled ▸ parsed : _ = some p)
  constructor
  · intro same
    obtain ⟨s, spelled⟩ := spelling_of_oilParamParse parsed
    obtain ⟨t, spelledOther⟩ := spelling_of_oilParamParse parsedOther
    obtain ⟨known, typed⟩ := role spelled parsed
    obtain ⟨_, typedOther⟩ := role spelledOther parsedOther
    rw [typed] at known
    rw [typed, typedOther] at same
    exact ⟨s, t, spelled, spelledOther, roleKey_inj (argTypeParse_inj known same)⟩
  · intro same
    obtain ⟨s, t, spelled, spelledOther, sameRole⟩ := same
    rw [(role spelled parsed).2, (role spelledOther parsedOther).2, sameRole]

end Types

/-- The parameters of an accepted prototype all have a place in the table, exactly if no two of them
are scale parameters, and no two are strides or arrays of one direction and index. -/
theorem none_displaced_iff {prototype : List Char} (accepted : oilPrototypeParse prototype = some params) :
    NoneDisplaced params ↔
      (prototype.splitOn ',').Pairwise fun part other => ¬ SameRole (strstrip part) (strstrip other) := by
  obtain ⟨mapped, _⟩ := parts_of_accepted accepted
  rw [noneDisplaced_iff_distinct, DistinctTypes, List.Nodup, List.pairwise_map]
  refine pairwise_mapM_iff mapped fun part other p q parsed parsedOther => ?_
  rw [ne_eq, argType_eq_iff_sameRole parsed parsedOther]

theorem none_displaced_apart :
    ∃ params, oilPrototypeParse "uint8_t *d, uint8_t *d2, int ds, int n".toList = some params ∧
      ("uint8_t *d, uint8_t *d2, int ds, int n".toList.splitOn ',').Pairwise fun part other =>
        ¬ SameRole (strstrip part) (strstrip other) := by
  have accepted : oilPrototypeParse "uint8_t *d, uint8_t *d2, int ds, int n".toList =
      some ((oilPrototypeParse "uint8_t *d, uint8_t *d2, int ds, int n".toList).getD []) := by decide +kernel
  have distinct : DistinctTypes ((oilPrototypeParse "uint8_t *d, uint8_t *d2, int ds, int n".toList).getD []) := by
    unfold DistinctTypes
    decide +kernel
  exact ⟨_, accepted, (none_displaced_iff accepted).mp (noneDisplaced_iff_distinct.mpr distinct)⟩

/-- `d` and `d1` are one argument type, and so are `n` and `m`. -/
theorem parameters_displaced :
    (¬ ∀ prototype params, oilPrototypeParse prototype = some params → NoneDisplaced params) ∧
    ∃ params, oilPrototypeParse "uint8_t *d_nxm, int ds, int n, int m".toList = some params ∧
      ¬ NoneDisplaced params := by
  constructor
  · intro never
    have accepted : oilPrototypeParse "uint8_t *d, uint8_t *d1, int ds, int n".toList =
        some ((oilPrototypeParse "uint8_t *d, uint8_t *d1, int ds, int n".toList).getD []) := by decide +kernel
    have distinct := (never _ _ accepted).distinct
    revert distinct
    unfold DistinctTypes
    decide +kernel
  · have accepted : oilPrototypeParse "uint8_t *d_nxm, int ds, int n, int m".toList =
        some ((oilPrototypeParse "uint8_t *d_nxm, int ds, int n, int m".toList).getD []) := by decide +kernel
    refine ⟨_, accepted, fun none => ?_⟩
    have distinct := none.distinct
    revert distinct
    unfold DistinctTypes
    decide +kernel

end Oil.Test
