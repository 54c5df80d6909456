import Oil.Data.Attempts
import Oil.Test.Parameter.Model

namespace Oil.Test

open Oil.Data

/-- What is known of every parameter of an accepted prototype: an array, a stride or a scale
parameter, with an argument type from the table and nothing laid out yet. -/
structure OilParameter.Fresh (p : OilParameter) : Prop where
  argType : p.argType = argTypeParse p.argClass p.isStride p.index
  known : p.argType ≠ .unknown
  array : p.isPointer = true → p.argClass ≠ .scale ∧ p.isStride = false
  stride : p.isStride = true → p.argClass ≠ .scale ∧ p.isPointer = false
  scale : p.isPointer = false → p.isStride = false → p.argClass = .scale ∧ p.index = 0
  lengths : 0 ≤ p.prestrideLength ∧ 0 ≤ p.poststrideLength
  value : p.value = 0
  layout : p.header = 0 ∧ p.footer = 0 ∧ p.preN = 0 ∧ p.postN = 0 ∧ p.stride = 0 ∧ p.size = 0 ∧ p.guard = 0

theorem argDirParse_ne_scale {dir : List Char} {argClass : ArgClass} (parsed : argDirParse dir = some argClass) :
    argClass ≠ .scale := by
  rintro rfl
  rw [argDirParse.eq_def] at parsed
  split at parsed <;> cases parsed

theorem asciiStrtoll_nonneg (text : List Char) : 0 ≤ asciiStrtoll text := by
  unfold asciiStrtoll
  refine Int.le_min.mpr ⟨?_, Int.natCast_nonneg _⟩
  split <;> exact Int.natCast_nonneg _

theorem lenspecParse_nonneg (lenspec : List Char) : 0 ≤ (lenspecParse lenspec).2 := by
  have optional (rest : List Char) : 0 ≤ if rest = [] then 0 else asciiStrtoll (rest.drop 1) := by
    split
    · exact Int.le_refl 0
    · exact asciiStrtoll_nonneg _
  unfold lenspecParse
  split
  · exact optional _
  · exact optional _
  · exact asciiStrtoll_nonneg _

theorem lengths_nonneg (len1 len2 : List Char) :
    0 ≤ (if len1 = [] then ((0, 1), (1, 0)) else if len2 = [] then ((0, 1), lenspecParse len1)
      else (lenspecParse len1, lenspecParse len2) : (Int × Int) × Int × Int).1.2 ∧
    0 ≤ (if len1 = [] then ((0, 1), (1, 0)) else if len2 = [] then ((0, 1), lenspecParse len1)
      else (lenspecParse len1, lenspecParse len2) : (Int × Int) × Int × Int).2.2 := by
  split
  · exact ⟨by decide, by decide⟩
  · split
    · exact ⟨Int.one_nonneg, lenspecParse_nonneg len1⟩
    · exact ⟨lenspecParse_nonneg len1, lenspecParse_nonneg len2⟩

theorem argParse_cases {captures : Captures} {cType : OilType} {p : OilParameter}
    (parsed : argParse captures { cType } = some p) :
    (∃ index, p = { cType, index, isPointer := false, isStride := false } ∧ index = 0) ∨
    (∃ argClass index, argClass ≠ .scale ∧
      p = { cType, argClass, index, isPointer := false, isStride := true }) ∨
    ∃ argClass index prestrideVar prestrideLength poststrideVar poststrideLength, argClass ≠ .scale ∧
      (0 ≤ prestrideLength ∧ 0 ≤ poststrideLength) ∧
      p = { cType, argClass, index, isPointer := true, isStride := false, prestrideVar,
            prestrideLength, poststrideVar, poststrideLength } := by
  rw [argParse] at parsed
  split at parsed
  · exact .inl ⟨0, (Option.some.inj parsed).symm, rfl⟩
  · split at parsed
    · right; left
      obtain ⟨argClass, dir, rest⟩ := Option.bind_eq_some_iff.mp parsed
      exact ⟨argClass, _, argDirParse_ne_scale dir, (Option.some.inj rest).symm⟩
    · right; right
      obtain ⟨argClass, dir, rest⟩ := Option.bind_eq_some_iff.mp parsed
      exact ⟨argClass, _, _, _, _, _, argDirParse_ne_scale dir, lengths_nonneg _ _, (Option.some.inj rest).symm⟩

theorem oilParamParse_fresh {paramStr : List Char} {p : OilParameter}
    (parsed : oilParamParse paramStr = some p) : p.Fresh := by
  obtain ⟨captures, _, parsed⟩ := Option.bind_eq_some_iff.mp parsed
  dsimp only at parsed
  split at parsed
  · contradiction
  obtain ⟨bare, found, parsed⟩ := Option.bind_eq_some_iff.mp parsed
  split at parsed
  · contradiction
  case isFalse known =>
    obtain rfl := Option.some.inj parsed
    rcases argParse_cases found with
      ⟨index, rfl, rfl⟩ | ⟨argClass, index, directed, rfl⟩ | ⟨argClass, index, _, _, _, _, directed, lengths, rfl⟩
    · exact ⟨rfl, known, nofun, nofun, fun _ _ => ⟨rfl, rfl⟩, ⟨Int.le_refl 0, Int.le_refl 0⟩, rfl,
        rfl, rfl, rfl, rfl, rfl, rfl, rfl⟩
    · exact ⟨rfl, known, nofun, fun _ => ⟨directed, rfl⟩, fun _ => nofun, ⟨Int.le_refl 0, Int.le_refl 0⟩, rfl,
        rfl, rfl, rfl, rfl, rfl, rfl, rfl⟩
    · exact ⟨rfl, known, fun _ => ⟨directed, rfl⟩, nofun, nofun, lengths, rfl,
        rfl, rfl, rfl, rfl, rfl, rfl, rfl⟩

theorem oilPrototypeParse_fresh {prototype : List Char} {params : List OilParameter}
    (accepted : oilPrototypeParse prototype = some params) : ∀ p ∈ params, p.Fresh := by
  rw [oilPrototypeParse] at accepted
  split at accepted
  · contradiction
  obtain ⟨parsed, found, accepted⟩ := Option.bind_eq_some_iff.mp accepted
  split at accepted
  · obtain rfl := Option.some.inj accepted
    intro p member
    obtain ⟨paramStr, _, one⟩ := exists_of_mem_mapM found p member
    exact oilParamParse_fresh one
  · contradiction

end Oil.Test
