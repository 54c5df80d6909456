import Oil.Test.Tester.Accesses

namespace Oil.Test

open Oil.Data

/-! # The verdict of the bounds check -/

variable {p : OilParameter} {params : List OilParameter}

/-- Nothing was written that must not be: a source is what the sample was, and around the
elements of any other array stands the guard. -/
structure GuardStands (p : OilParameter) (bytes : List UInt8) : Prop where
  header : ∀ k, 0 ≤ k → k < p.header → byteAt bytes k = some p.guard.toUInt8
  holes : ∀ row, 0 ≤ row → row < p.postN → ∀ k, oilTypeSizeof p.cType * p.preN ≤ k → k < p.stride →
    byteAt bytes (p.header + row * p.stride + k) = some p.guard.toUInt8
  footer : ∀ k, 0 ≤ k → k < p.footer → byteAt bytes (p.size - p.footer + k) = some p.guard.toUInt8

def BufferKept (p : OilParameter) (src bytes : List UInt8) : Prop :=
  if p.argClass = .src then bytes = src else GuardStands p bytes

/-- The arguments of scale parameters are not looked at. -/
def ArgKept (p : OilParameter) (src data : Arg) : Prop :=
  p.isPointer = true → ∀ srcBytes bytes, src = .buffer srcBytes → data = .buffer bytes → BufferKept p srcBytes bytes

theorem guardStands_iff (bytes : List UInt8) (sane : p.Sane) :
    (∀ offset ∈ guardOffsets p, byteAt bytes offset = some p.guard.toUInt8) ↔ GuardStands p bytes := by
  have rows : (p.postN.toNat : Int) = p.postN := Int.toNat_of_nonneg sane.postN
  simp only [guardOffsets, List.forall_mem_append, mem_spanFrom, mem_spansFrom, rows]
  constructor
  · rintro ⟨⟨header, holes⟩, footer⟩
    refine ⟨fun k lower upper => header k ⟨lower, by omega⟩, fun row first last k lower upper => ?_,
      fun k lower upper => footer _ ⟨by omega, by omega⟩⟩
    exact holes _ ⟨row, ⟨first, last⟩, by omega, by omega⟩
  · rintro ⟨header, holes, footer⟩
    refine ⟨⟨fun offset within => header offset within.1 (by omega), ?_⟩, fun offset within => ?_⟩
    · rintro offset ⟨row, ⟨first, last⟩, lower, upper⟩
      have place : p.header + row * p.stride + (offset - (p.header + row * p.stride)) = offset := by omega
      exact place ▸ holes row first last (offset - (p.header + row * p.stride)) (by omega) (by omega)
    · have place : p.size - p.footer + (offset - (p.size - p.footer)) = offset := by omega
      exact place ▸ footer (offset - (p.size - p.footer)) (by omega) (by omega)

theorem checkArg_eq_true_iff {src data : Arg} (sane : p.isPointer = true → p.Sane)
    (fits : p.isPointer = true → oilTypeSizeof p.cType * p.preN ≤ p.stride)
    (sampled : src.shape = (mayAllocArg p).shape) (shaped : data.shape = (mayAllocArg p).shape) :
    checkArg p src data = some true ↔ ArgKept p src data := by
  cases pointer : p.isPointer with
  | false =>
      have scale : ¬ p.isPointer = true := by simp [pointer]
      refine iff_of_true ?_ fun isPointer => absurd isPointer scale
      cases src <;> cases data <;> simp [checkArg, pointer]
  | true =>
      rw [mayAllocArg, if_pos pointer, Arg.shape] at sampled shaped
      cases src with
      | scale value => contradiction
      | buffer srcBytes =>
          cases data with
          | scale value => contradiction
          | buffer bytes =>
              have whole : ArgKept p (.buffer srcBytes) (.buffer bytes) ↔ BufferKept p srcBytes bytes :=
                ⟨fun kept => kept pointer _ _ rfl rfl, fun kept _ _ _ sameSrc same =>
                  Arg.buffer.inj sameSrc ▸ Arg.buffer.inj same ▸ kept⟩
              rw [whole, BufferKept]
              by_cases source : p.argClass = .src
              · have srcLength : srcBytes.length = p.size.toNat := (Sum.inl.inj sampled).trans List.length_replicate
                have length : bytes.length = p.size.toNat := (Sum.inl.inj shaped).trans List.length_replicate
                rw [checkArg, if_neg (by simp [pointer]), if_pos source, if_pos source, ← srcLength, List.take_length,
                  srcLength, ← length, List.take_length, Option.some_inj, decide_eq_true_eq, eq_comm]
              · rw [if_neg source, checkArg_eq_scan srcBytes bytes pointer source (sane pointer) (fits pointer),
                  scan_eq_true_iff, ← guardStands_iff bytes (sane pointer)]
                simp only [guardIntact_eq_true]

theorem checkViolation_eq_true_iff {srcData data : List Arg} (sane : ∀ p ∈ params, p.isPointer = true → p.Sane)
    (fits : ∀ p ∈ params, p.isPointer = true → oilTypeSizeof p.cType * p.preN ≤ p.stride)
    (sampled : Allocated params srcData) (allocated : Allocated params data) :
    checkViolation params srcData data = some true ↔
      ∀ (i : Nat) p src arg, params[i]? = some p → srcData[i]? = some src → data[i]? = some arg → ArgKept p src arg := by
  induction params generalizing srcData data with
  | nil => simp [checkViolation]
  | cons p params ih =>
      cases srcData with
      | nil => simp [Allocated, mayAllocMemOfParams] at sampled
      | cons src srcData =>
          cases data with
          | nil => simp [Allocated, mayAllocMemOfParams] at allocated
          | cons arg data =>
              obtain ⟨sampledFirst, sampledRest⟩ := List.cons.inj sampled
              obtain ⟨shaped, allocatedRest⟩ := List.cons.inj allocated
              have first := checkArg_eq_true_iff (sane p (.head _)) (fits p (.head _)) sampledFirst shaped
              have rest := ih (fun q member => sane q (.tail _ member)) (fun q member => fits q (.tail _ member))
                sampledRest allocatedRest
              have both : checkViolation (p :: params) (src :: srcData) (arg :: data) = some true ↔
                  ArgKept p src arg ∧ checkViolation params srcData data = some true := by
                rw [← first, checkViolation]
                cases checkArg p src arg with
                | none => simp
                | some intact => cases intact <;> simp
              rw [both, rest]
              constructor
              · rintro ⟨kept, keptRest⟩ i q src' arg' foundP foundSrc foundArg
                cases i with
                | zero =>
                    obtain rfl := Option.some.inj foundP
                    obtain rfl := Option.some.inj foundSrc
                    obtain rfl := Option.some.inj foundArg
                    exact kept
                | succ i => exact keptRest i q src' arg' foundP foundSrc foundArg
              · intro kept
                exact ⟨kept 0 p src arg rfl rfl rfl, fun i => kept (i + 1)⟩

/-- `_check_violation` ends, and returns `TRUE` exactly if every source is what it was and every
guard stands. -/
theorem checkViolation_verdict {srcData data : List Arg} (sane : ∀ p ∈ params, p.isPointer = true → p.Sane)
    (fits : ∀ p ∈ params, p.isPointer = true → oilTypeSizeof p.cType * p.preN ≤ p.stride)
    (sampled : Allocated params srcData) (allocated : Allocated params data) :
    ∃ intact, checkViolation params srcData data = some intact ∧
      (intact = true ↔ ∀ (i : Nat) p src bytes, params[i]? = some p → p.isPointer = true →
        srcData[i]? = some (.buffer src) → data[i]? = some (.buffer bytes) → BufferKept p src bytes) := by
  obtain ⟨intact, verdict⟩ := checkViolation_inside sane srcData allocated
  refine ⟨intact, verdict, ?_⟩
  have described := checkViolation_eq_true_iff sane fits sampled allocated
  rw [verdict, Option.some_inj] at described
  rw [described]
  constructor
  · intro kept i p src bytes found pointer foundSrc foundBytes
    exact kept i p _ _ found foundSrc foundBytes pointer src bytes rfl rfl
  · rintro kept i p src arg found foundSrc foundArg pointer srcBytes bytes rfl rfl
    exact kept i p srcBytes bytes found pointer foundSrc foundArg

/-- Two rows of one element and one byte of hole, between a header and a footer. -/
def guardedArray : OilParameter :=
  { cType := .u8p, argClass := .dest, isPointer := true, header := 1, footer := 1, preN := 1, postN := 2,
    stride := 2, size := 6, guard := -7 }

theorem checkViolation_verdict_guarded : GuardStands guardedArray [249, 0, 249, 0, 249, 249] := by
  have sane : ∀ p ∈ [guardedArray], p.isPointer = true → p.Sane := by
    intro p member _
    rw [List.mem_singleton.mp member]
    constructor <;> decide
  have fits : ∀ p ∈ [guardedArray], p.isPointer = true → oilTypeSizeof p.cType * p.preN ≤ p.stride := by decide
  have sampled : Allocated [guardedArray] [.buffer [0, 0, 0, 0, 0, 0]] := by
    unfold Allocated
    decide
  have allocated : Allocated [guardedArray] [.buffer [249, 0, 249, 0, 249, 249]] := by
    unfold Allocated
    decide
  obtain ⟨intact, verdict, described⟩ := checkViolation_verdict sane fits sampled allocated
  have returned : checkViolation [guardedArray] [.buffer [0, 0, 0, 0, 0, 0]]
      [.buffer [249, 0, 249, 0, 249, 249]] = some true := by decide +kernel
  rw [verdict, Option.some_inj] at returned
  exact described.mp returned 0 guardedArray _ _ rfl rfl rfl rfl

end Oil.Test
