import Oil.Test.Tester.Accesses

namespace Oil.Test

open Oil.Data

section Elements

variable {σ : Type} (draw : OilType → σ → (Nat → UInt8) × σ) {p : OilParameter} {width : Nat} {offset : Int}

theorem elementWidth_eq {type : OilType} (known : elementWidth type = some width) :
    oilTypeSizeof type = width ∧ 0 < width := by
  cases type <;> simp_all [elementWidth, oilTypeSizeof] <;> omega

/-- The bytes of the elements of an array, row by row. -/
def elementOffsets (p : OilParameter) (width : Nat) : List Int :=
  (List.range p.postN.toNat).flatMap fun i : Nat => spansFrom (p.header + i * p.stride) width p.preN.toNat width

theorem fillRow_offsets (type : OilType) (width : Nat) (ptr : Int) (left j : Nat) (r : σ) :
    (fillRow draw type width ptr left j r).1.map Prod.fst = spansFrom (ptr + (j * width : Nat)) width left width := by
  induction left generalizing j r with
  | zero => rfl
  | succ left ih =>
      have next : ptr + ((j + 1) * width : Nat) = ptr + (j * width : Nat) + width := by
        rw [Nat.succ_mul, Int.natCast_add, Int.add_assoc]
      simp only [fillRow, List.map_append, List.map_map, ih, spansFrom_succ, next]
      rfl

theorem fillRows_offsets (type : OilType) (width : Nat) (array stride : Int) (preN left i : Nat) (r : σ) :
    (fillRows draw type width array stride preN left i r).1.map Prod.fst =
      (List.range left).flatMap fun k : Nat => spansFrom (array + gint ((i + k : Nat) * stride)) width preN width := by
  induction left generalizing i r with
  | zero => rfl
  | succ left ih =>
      simp only [fillRows, List.map_append, fillRow_offsets, ih, List.range_succ_eq_map, List.flatMap_cons,
        List.flatMap_map, Nat.zero_mul, Nat.add_zero, Int.natCast_zero, Int.add_zero, Nat.succ_eq_add_one,
        Nat.add_right_comm i 1, Nat.add_assoc]

/-- A row's start, and every element's offset from it, is what the wrapping arithmetic of the source makes of it. -/
theorem OilParameter.Sane.rows_fit (sane : p.Sane) (fits : oilTypeSizeof p.cType * p.preN ≤ p.stride)
    (sizeFits : InGint p.size) {i : Nat} (row : i < p.postN.toNat) :
    gint (i * p.stride) = i * p.stride ∧
    ∀ j < p.preN.toNat, gint (gint (i * p.stride) + gint (j * oilTypeSizeof p.cType)) =
      i * p.stride + j * oilTypeSizeof p.cType := by
  obtain ⟨header, footer, _, postN, stride, _, _, size⟩ := sane
  obtain ⟨_, upper⟩ := sizeFits
  have elementNonneg : 0 ≤ oilTypeSizeof p.cType := by cases p.cType <;> decide
  have before : 0 ≤ i * p.stride := Int.mul_nonneg (Int.natCast_nonneg i) stride
  have next : (i + 1) * p.stride ≤ p.postN * p.stride := Int.mul_le_mul_of_nonneg_right (by omega) stride
  rw [Int.add_mul, Int.one_mul, Int.mul_comm p.postN] at next
  have rowFits : gint (i * p.stride) = i * p.stride := gint_of_inGint ⟨by omega, by omega⟩
  refine ⟨rowFits, fun j column => ?_⟩
  have from_row : 0 ≤ j * oilTypeSizeof p.cType := Int.mul_nonneg (Int.natCast_nonneg j) elementNonneg
  have to_row : j * oilTypeSizeof p.cType ≤ p.preN * oilTypeSizeof p.cType :=
    Int.mul_le_mul_of_nonneg_right (by omega) elementNonneg
  rw [Int.mul_comm p.preN] at to_row
  have columnFits : gint (j * oilTypeSizeof p.cType) = j * oilTypeSizeof p.cType :=
    gint_of_inGint ⟨by omega, by omega⟩
  rw [rowFits, columnFits]
  exact gint_of_inGint ⟨by omega, by omega⟩

theorem oilRandizeArrayDefault_offsets (r : σ) (known : elementWidth p.cType = some width) (sane : p.Sane)
    (fits : oilTypeSizeof p.cType * p.preN ≤ p.stride) (sizeFits : InGint p.size) :
    (oilRandizeArrayDefault draw r p.header p.cType p.preN p.stride p.postN).map (fun filled => filled.1.map Prod.fst) =
      some (elementOffsets p width) := by
  rw [oilRandizeArrayDefault, known, Option.map_some, Option.map_some, fillRows_offsets, elementOffsets]
  congr 1
  refine List.flatMap_congr fun i row => ?_
  rw [Nat.zero_add, (sane.rows_fit fits sizeFits (List.mem_range.mp row)).1]

theorem checkArrayReads_offsets (known : elementWidth p.cType = some width) (sane : p.Sane)
    (fits : oilTypeSizeof p.cType * p.preN ≤ p.stride) (sizeFits : InGint p.size) :
    checkArrayReads p.header p.cType p.preN p.stride p.postN = some (elementOffsets p width) := by
  rw [checkArrayReads, known, Option.map_some, elementOffsets]
  congr 1
  refine List.flatMap_congr fun i member => ?_
  rw [spansFrom]
  refine List.flatMap_congr fun j memberRow => ?_
  rw [(sane.rows_fit fits sizeFits (List.mem_range.mp member)).2 j (List.mem_range.mp memberRow),
    (elementWidth_eq known).1, Int.add_assoc]

theorem mem_elementOffsets (known : elementWidth p.cType = some width) :
    offset ∈ elementOffsets p width ↔ ElementByte p offset := by
  simp only [elementOffsets, List.mem_flatMap, List.mem_range, mem_spansFrom, ElementByte, InRows,
    (elementWidth_eq known).1]
  constructor
  · rintro ⟨i, row, j, ⟨from_start, to_end⟩, from_element, to_element⟩
    exact ⟨i, j, offset - (p.header + i * p.stride + j * width), by omega, by omega, by omega, by omega⟩
  · rintro ⟨i, j, k, row, column, byte, rfl⟩
    refine ⟨i.toNat, by omega, j, by omega, ?_⟩
    rw [Int.toNat_of_nonneg row.1]
    omega

/-- The elements take up the front part of each row. -/
theorem elementByte_iff_inRows : ElementByte p offset ↔
    InRows p.header p.stride p.postN (oilTypeSizeof p.cType * p.preN) offset := by
  have elementNonneg : 0 ≤ oilTypeSizeof p.cType := by cases p.cType <;> decide
  have columns (start : Int) : InRows start (oilTypeSizeof p.cType) p.preN (oilTypeSizeof p.cType) offset ↔
      start ≤ offset ∧ offset < start + oilTypeSizeof p.cType * p.preN := by
    rw [inRows_full elementNonneg, Int.mul_comm]
  constructor
  · rintro ⟨i, j, k, row, column, byte, place⟩
    exact ⟨i, row, (columns _).mp ⟨j, column, by omega, by omega⟩⟩
  · rintro ⟨i, row, covered⟩
    obtain ⟨j, column, from_element, to_element⟩ := (columns _).mpr covered
    exact ⟨i, j, offset - (p.header + i * p.stride + j * oilTypeSizeof p.cType), row, column, by omega, by omega⟩

theorem ElementByte.between (element : ElementByte p offset) (sane : p.Sane)
    (fits : oilTypeSizeof p.cType * p.preN ≤ p.stride) : p.header ≤ offset ∧ offset < p.size - p.footer := by
  obtain ⟨lower, upper⟩ := (elementByte_iff_inRows.mp element).inside sane.stride fits
  have size := sane.size
  rw [Int.mul_comm] at upper
  omega

/-- The bytes around the elements are all the bytes that are no element's. -/
theorem mem_guardOffsets (sane : p.Sane) (fits : oilTypeSizeof p.cType * p.preN ≤ p.stride) :
    offset ∈ guardOffsets p ↔ OtherByte p offset := by
  obtain ⟨elements, headerFits, footerFits, nonneg⟩ := sane.size_nonneg
  have size := sane.size
  have header := sane.header
  have footer := sane.footer
  have rows : (p.postN.toNat : Int) = p.postN := Int.toNat_of_nonneg sane.postN
  have chunkNonneg : 0 ≤ oilTypeSizeof p.cType * p.preN := Int.mul_nonneg (by cases p.cType <;> decide) sane.preN
  simp only [guardOffsets, List.mem_append, mem_spanFrom, mem_spansFrom, rows, OtherByte]
  constructor
  · rintro ((inHeader | inHole) | inFooter)
    · exact ⟨by omega, fun element => by have := element.between sane fits; omega⟩
    · refine ⟨?_, fun element => (elementByte_iff_inRows.mp element).apart sane.stride inHole⟩
      obtain ⟨i, ⟨lower, upper⟩, from_hole, to_hole⟩ := inHole
      have before : 0 ≤ i * p.stride := Int.mul_nonneg lower sane.stride
      have next : (i + 1) * p.stride ≤ p.postN * p.stride := Int.mul_le_mul_of_nonneg_right (by omega) sane.stride
      rw [Int.add_mul, Int.one_mul, Int.mul_comm p.postN] at next
      omega
    · exact ⟨by omega, fun element => by have := element.between sane fits; omega⟩
  · rintro ⟨⟨lower, upper⟩, other⟩
    rcases Int.lt_or_le offset p.header with inHeader | pastHeader
    · exact .inl (.inl ⟨lower, by omega⟩)
    rcases Int.lt_or_le offset (p.size - p.footer) with beforeFooter | inFooter
    · rcases inRows_split (oilTypeSizeof p.cType * p.preN) pastHeader
        (by rw [Int.mul_comm]; omega : offset < p.header + p.postN * p.stride) sane.stride with inFront | inRest
      · exact absurd (elementByte_iff_inRows.mpr inFront) other
      · exact .inl (.inr inRest)
    · exact .inr ⟨inFooter, by omega⟩

end Elements

section Splitting

variable {σ : Type} (draw : OilType → σ → (Nat → UInt8) × σ) {p : OilParameter} {bytes : List UInt8}

theorem sampleStores_offsets (r : σ) (pointer : p.isPointer = true)
    (sampled : p.argClass = .src ∨ p.argClass = .inplace) (sane : p.Sane)
    (fits : oilTypeSizeof p.cType * p.preN ≤ p.stride) (sizeFits : InGint p.size) :
    (sampleStores draw p r).map (·.map Prod.fst) = (elementWidth p.cType).map (elementOffsets p) := by
  rw [sampleStores, if_pos ⟨pointer, sampled⟩, Option.map_map]
  cases known : elementWidth p.cType with
  | none => rw [oilRandizeArrayDefault, known, Option.map_none, Option.map_none, Option.map_none]
  | some width => exact oilRandizeArrayDefault_offsets draw r known sane fits sizeFits

theorem resultReads_offsets (pointer : p.isPointer = true)
    (checked : p.argClass = .dest ∨ p.argClass = .inplace) (sane : p.Sane)
    (fits : oilTypeSizeof p.cType * p.preN ≤ p.stride) (sizeFits : InGint p.size) :
    resultReads p = (elementWidth p.cType).map (elementOffsets p) := by
  rw [resultReads, if_pos ⟨pointer, checked⟩]
  cases known : elementWidth p.cType with
  | none => rw [checkArrayReads, known, Option.map_none, Option.map_none]
  | some width => exact checkArrayReads_offsets known sane fits sizeFits

theorem checkArg_verdict (srcBytes bytes : List UInt8) (pointer : p.isPointer = true) (written : p.argClass ≠ .src)
    (sane : p.Sane) (fits : oilTypeSizeof p.cType * p.preN ≤ p.stride) :
    (checkArg p (.buffer srcBytes) (.buffer bytes) = some true ↔
      ∀ offset, OtherByte p offset → byteAt bytes offset = some p.guard.toUInt8) ∧
    (∀ offset ∈ checkArgCompared p bytes, OtherByte p offset) ∧
    (checkArg p (.buffer srcBytes) (.buffer bytes) = some true →
      ∀ offset, OtherByte p offset → offset ∈ checkArgCompared p bytes) := by
  rw [checkArg_eq_scan srcBytes bytes pointer written sane fits,
    checkArgCompared_eq_scanned bytes pointer written sane fits]
  refine ⟨?_, fun offset compared => (mem_guardOffsets sane fits).mp (mem_of_mem_scanned compared),
    fun passes offset other => ?_⟩
  · simp only [scan_eq_true_iff, mem_guardOffsets sane fits, guardIntact_eq_true]
  · rw [scanned_of_scan passes]
    exact (mem_guardOffsets sane fits).mpr other

/-- A test touches the byte of the buffer: it is written with the sample, or read by a check. -/
def Touched (draw : OilType → σ → (Nat → UInt8) × σ) (r : σ) (p : OilParameter) (bytes : List UInt8) (offset : Int) :
    Prop :=
  offset ∈ ((sampleStores draw p r).getD []).map Prod.fst ∨ offset ∈ (resultReads p).getD [] ∨
    offset ∈ checkArgReads p bytes

theorem stored_iff {r : σ} {stores : List (Int × UInt8)} (pointer : p.isPointer = true)
    (sampled : p.argClass = .src ∨ p.argClass = .inplace) (sane : p.Sane)
    (fits : oilTypeSizeof p.cType * p.preN ≤ p.stride) (sizeFits : InGint p.size)
    (wrote : sampleStores draw p r = some stores) (offset : Int) :
    offset ∈ stores.map Prod.fst ↔ ElementByte p offset := by
  have offsets := sampleStores_offsets draw r pointer sampled sane fits sizeFits
  rw [wrote, Option.map_some] at offsets
  obtain ⟨width, known, same⟩ := Option.map_eq_some_iff.mp offsets.symm
  rw [← same, mem_elementOffsets known]

theorem read_iff {reads : List Int} (pointer : p.isPointer = true)
    (checked : p.argClass = .dest ∨ p.argClass = .inplace) (sane : p.Sane)
    (fits : oilTypeSizeof p.cType * p.preN ≤ p.stride) (sizeFits : InGint p.size)
    (returned : resultReads p = some reads) (offset : Int) : offset ∈ reads ↔ ElementByte p offset := by
  rw [resultReads_offsets pointer checked sane fits sizeFits] at returned
  obtain ⟨width, known, same⟩ := Option.map_eq_some_iff.mp returned
  rw [← same, mem_elementOffsets known]

theorem ElementByte.inside {offset : Int} (element : ElementByte p offset) (sane : p.Sane)
    (fits : oilTypeSizeof p.cType * p.preN ≤ p.stride) : 0 ≤ offset ∧ offset < p.size := by
  have between := element.between sane fits
  have header := sane.header
  have footer := sane.footer
  omega

theorem Touched.inside {r : σ} {offset : Int} (touched : Touched draw r p bytes offset) (pointer : p.isPointer = true)
    (sane : p.Sane) (fits : oilTypeSizeof p.cType * p.preN ≤ p.stride) (sizeFits : InGint p.size) :
    0 ≤ offset ∧ offset < p.size := by
  rcases touched with inSample | inResult | inCheck
  · by_cases sampled : p.argClass = .src ∨ p.argClass = .inplace
    · cases wrote : sampleStores draw p r with
      | none => simp [wrote] at inSample
      | some stores =>
          rw [wrote, Option.getD_some, stored_iff draw pointer sampled sane fits sizeFits wrote] at inSample
          exact inSample.inside sane fits
    · simp [sampleStores, sampled] at inSample
  · by_cases checked : p.argClass = .dest ∨ p.argClass = .inplace
    · cases returned : resultReads p with
      | none => simp [returned] at inResult
      | some reads =>
          rw [returned, Option.getD_some, read_iff pointer checked sane fits sizeFits returned] at inResult
          exact inResult.inside sane fits
    · simp [resultReads, checked] at inResult
  · rw [checkArgReads] at inCheck
    split at inCheck
    · have within := mem_spanFrom.mp inCheck
      omega
    case isFalse other =>
      have written : p.argClass ≠ .src := fun source => other ⟨pointer, source⟩
      exact ((checkArg_verdict [] bytes pointer written sane fits).2.1 offset inCheck).1

/-- Every byte of the buffer is an element's or around the elements.  The sample is written over
the former, the results are compared in the former, and the guard in the latter. -/
theorem buffer_bytes_split (r : σ) (pointer : p.isPointer = true) (sane : p.Sane)
    (fits : oilTypeSizeof p.cType * p.preN ≤ p.stride) (sizeFits : InGint p.size)
    (length : bytes.length = p.size) :
    (∀ offset, (0 ≤ offset ∧ offset < p.size ↔ ElementByte p offset ∨ OtherByte p offset) ∧
      ¬ (ElementByte p offset ∧ OtherByte p offset)) ∧
    (p.argClass = .src ∨ p.argClass = .inplace →
      (sampleStores draw p r = none ↔ elementWidth p.cType = none) ∧
      ∀ stores, sampleStores draw p r = some stores → ∀ offset, offset ∈ stores.map Prod.fst ↔ ElementByte p offset) ∧
    (p.argClass = .dest ∨ p.argClass = .inplace →
      (resultReads p = none ↔ elementWidth p.cType = none) ∧
      ∀ reads, resultReads p = some reads → ∀ offset, offset ∈ reads ↔ ElementByte p offset) ∧
    (p.argClass = .dest ∨ p.argClass = .inplace → ∀ srcBytes,
      ∃ intact, checkArg p (.buffer srcBytes) (.buffer bytes) = some intact ∧
        (intact = true ↔ ∀ offset, OtherByte p offset → byteAt bytes offset = some p.guard.toUInt8) ∧
        (∀ offset ∈ checkArgCompared p bytes, OtherByte p offset) ∧
        (intact = true → ∀ offset, OtherByte p offset → offset ∈ checkArgCompared p bytes)) ∧
    ∀ offset, Touched draw r p bytes offset → 0 ≤ offset ∧ offset < bytes.length := by
  refine ⟨fun offset => ⟨⟨fun within => ?_, ?_⟩, fun both => both.2.2 both.1⟩,
    fun sampled => ⟨?_, fun _ wrote => stored_iff draw pointer sampled sane fits sizeFits wrote⟩,
    fun checked => ⟨?_, fun _ returned => read_iff pointer checked sane fits sizeFits returned⟩,
    fun checked srcBytes => ?_, fun offset touched => ?_⟩
  case refine_1 =>
    by_cases element : ElementByte p offset
    · exact .inl element
    · exact .inr ⟨within, element⟩
  case refine_2 =>
    rintro (element | other)
    · exact element.inside sane fits
    · exact other.1
  case refine_3 =>
    rw [← Option.map_eq_none_iff, sampleStores_offsets draw r pointer sampled sane fits sizeFits,
      Option.map_eq_none_iff]
  case refine_4 => rw [resultReads_offsets pointer checked sane fits sizeFits, Option.map_eq_none_iff]
  case refine_5 =>
    have written : p.argClass ≠ .src := by rcases checked with same | same <;> simp [same]
    have shaped : (Arg.buffer bytes).shape = (mayAllocArg p).shape := by
      rw [mayAllocArg, if_pos pointer, Arg.shape, Arg.shape, List.length_replicate, ← length, Int.toNat_natCast]
    obtain ⟨intact, verdict⟩ := checkArg_inside (fun _ => sane) (.buffer srcBytes) shaped
    have described := checkArg_verdict srcBytes bytes pointer written sane fits
    rw [verdict, Option.some.injEq] at described
    exact ⟨intact, verdict, described⟩
  case refine_6 =>
    rw [length]
    exact touched.inside draw pointer sane fits sizeFits

/-- An array of two rows of one element and one byte of hole, between a header and a footer. -/
def holedArray : OilParameter :=
  { cType := .u8p, argClass := .inplace, isPointer := true, header := 1, footer := 1, preN := 1, postN := 2,
    stride := 2, size := 6, guard := 7 }

theorem buffer_bytes_split_holed :
    (checkArg holedArray (.buffer []) (.buffer [7, 0, 7, 0, 7, 7]) = some true ∧
      checkArgCompared holedArray [7, 0, 7, 0, 7, 7] = [0, 2, 4, 5]) ∧
    (∀ offset, offset ∈ [0, 2, 4, 5] ↔ OtherByte holedArray offset) ∧
    ∀ offset, offset ∈ [1, 3] ↔ ElementByte holedArray offset := by
  have sane : holedArray.Sane := by constructor <;> decide
  have runs : (sampleStores (fun _ r => (fun _ => r, r)) holedArray (5 : UInt8)) = some [(1, 5), (3, 5)] := by decide
  have verdict : checkArg holedArray (.buffer []) (.buffer [7, 0, 7, 0, 7, 7]) = some true := by decide +kernel
  have compared : checkArgCompared holedArray [7, 0, 7, 0, 7, 7] = [0, 2, 4, 5] := by decide +kernel
  obtain ⟨_, sampled, _, checked, _⟩ := buffer_bytes_split (fun _ r => (fun _ => r, r)) (5 : UInt8) rfl sane
    (by decide) (by decide) (by decide : ([7, 0, 7, 0, 7, 7] : List UInt8).length = holedArray.size)
  obtain ⟨intact, returned, _, onlyOthers, allOthers⟩ := checked (.inr rfl) []
  rw [verdict, Option.some.injEq] at returned
  rw [compared] at onlyOthers allOthers
  exact ⟨⟨verdict, compared⟩, fun offset => ⟨onlyOthers offset, allOthers returned.symm offset⟩,
    (sampled (.inr rfl)).2 _ runs⟩

end Splitting

end Oil.Test
