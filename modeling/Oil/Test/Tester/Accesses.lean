import Oil.Test.Tester.Bounds
import Oil.Data.Scans
import Oil.Data.Strides

namespace Oil.Test

open Oil.Data

/-! # The bytes of a test buffer

Which bytes of the buffer of an array the sample generator writes, the result check reads
and the bounds check compares with the guard.  Offsets count from the start of the buffer. -/

/-- The size of the C type a pointer type leads to, where `oil_randize_array_default` and
`_check_array` know it; they abort for the other types. -/
def elementWidth : OilType → Option Nat
  | .s8p | .u8p => some 1
  | .s16p | .u16p => some 2
  | .s32p | .u32p | .f32p => some 4
  | .s64p | .u64p | .f64p => some 8
  | _ => none

section Sample

variable {σ : Type} (draw : OilType → σ → (Nat → UInt8) × σ)

/-- The inner loop of `_FILL`, with the number of elements left: the stores it makes, and the
generator it leaves.  `draw` is the random function of the type, which gives the bytes of an
element. -/
def fillRow (type : OilType) (width : Nat) (ptr : Int) : (left j : Nat) → σ → List (Int × UInt8) × σ
  | 0, _, r => ([], r)
  | left + 1, j, r =>
      let (element, r) := draw type r
      let (stores, r) := fillRow type width ptr left (j + 1) r
      ((List.range width).map (fun k : Nat => (ptr + (j * width : Nat) + k, element k)) ++ stores, r)

/-- The outer loop of `_FILL`. -/
def fillRows (type : OilType) (width : Nat) (array stride : Int) (preN : Nat) :
    (left i : Nat) → σ → List (Int × UInt8) × σ
  | 0, _, r => ([], r)
  | left + 1, i, r =>
      let (stores, r) := fillRow draw type width (array + gint (i * stride)) preN 0 r
      let (rest, r) := fillRows type width array stride preN left (i + 1) r
      (stores ++ rest, r)

/-- `oil_randize_array_default`: the stores it makes; none where it aborts. -/
def oilRandizeArrayDefault (r : σ) (array : Int) (type : OilType) (preN stride postN : Int) :
    Option (List (Int × UInt8) × σ) :=
  (elementWidth type).map fun width => fillRows draw type width array stride preN.toNat postN.toNat 0 r

/-- The stores `oil_checker_sample_generator` makes for one parameter. -/
def sampleStores (p : OilParameter) (r : σ) : Option (List (Int × UInt8)) :=
  if p.isPointer = true ∧ (p.argClass = .src ∨ p.argClass = .inplace) then
    (oilRandizeArrayDefault draw r p.header p.cType p.preN p.stride p.postN).map Prod.fst
  else some []

end Sample

/-- The bytes `_check_array` reads in each of the two arrays it compares; none where it aborts. -/
def checkArrayReads (array : Int) (cType : OilType) (preN stride postN : Int) : Option (List Int) :=
  (elementWidth cType).map fun width : Nat =>
    (List.range postN.toNat).flatMap fun i : Nat => (List.range preN.toNat).flatMap fun j : Nat =>
      let offset := gint (gint (i * stride) + gint (j * oilTypeSizeof cType))
      spanFrom (array + offset) width

/-- The bytes `oil_checker_check_result` reads of one parameter. -/
def resultReads (p : OilParameter) : Option (List Int) :=
  if p.isPointer = true ∧ (p.argClass = .dest ∨ p.argClass = .inplace) then
    checkArrayReads p.header p.cType p.preN p.stride p.postN
  else some []

/-- The bytes `checkGuardLoop` compares. -/
def checkGuardCompared (bytes : List UInt8) (guard : Int8) : (left : Nat) → (p : Int) → List Int
  | 0, _ => []
  | left + 1, p => p :: if byteAt bytes p = some guard.toUInt8 then checkGuardCompared bytes guard left (p + 1) else []

/-- The bytes `checkHoles` compares. -/
def checkHolesCompared (p : OilParameter) (bytes : List UInt8) (chunkSize holeSize : Int) :
    (rounds : Nat) → (a : Int) → List Int
  | 0, _ => []
  | rounds + 1, a =>
      if a ≠ p.size - p.footer then
        checkGuardCompared bytes p.guard holeSize.toNat (a + chunkSize) ++
          if checkGuard bytes (a + chunkSize) holeSize p.guard = some true then
            checkHolesCompared p bytes chunkSize holeSize rounds (a + p.stride)
          else []
      else []

/-- The bytes `checkArg` compares with the guard in the buffer of one parameter. -/
def checkArgCompared (p : OilParameter) (bytes : List UInt8) : List Int :=
  if p.isPointer = false ∨ p.argClass = .src then []
  else
    let chunkSize := gint (oilTypeSizeof p.cType * p.preN)
    let holeSize := gint (p.stride - chunkSize)
    checkGuardCompared bytes p.guard p.header.toNat 0 ++
      if checkGuard bytes 0 p.header p.guard = some true then
        (if holeSize ≠ 0 then checkHolesCompared p bytes chunkSize holeSize (p.size.toNat + 1) p.header else []) ++
          if holeSize = 0 ∨ checkHoles p bytes chunkSize holeSize (p.size.toNat + 1) p.header = some true then
            checkGuardCompared bytes p.guard p.footer.toNat (p.size - p.footer)
          else []
      else []

/-- The bytes `_check_violation` reads of one parameter. -/
def checkArgReads (p : OilParameter) (bytes : List UInt8) : List Int :=
  if p.isPointer = true ∧ p.argClass = .src then spanFrom 0 p.size else checkArgCompared p bytes

/-- A byte of the element in row `i` and column `j` of an array. -/
def ElementByte (p : OilParameter) (offset : Int) : Prop :=
  ∃ i j k : Int, (0 ≤ i ∧ i < p.postN) ∧ (0 ≤ j ∧ j < p.preN) ∧ (0 ≤ k ∧ k < oilTypeSizeof p.cType) ∧
    offset = p.header + i * p.stride + j * oilTypeSizeof p.cType + k

def OtherByte (p : OilParameter) (offset : Int) : Prop := (0 ≤ offset ∧ offset < p.size) ∧ ¬ ElementByte p offset

section Scanning

variable {p : OilParameter} {bytes : List UInt8} {guard : Int8} {chunkSize holeSize : Int}

/-- One comparison with the guard; no result where it reads outside the buffer. -/
def guardIntact (bytes : List UInt8) (guard : Int8) (offset : Int) : Option Bool :=
  (byteAt bytes offset).map fun byte => decide (byte = guard.toUInt8)

theorem guardIntact_eq_true {offset : Int} :
    guardIntact bytes guard offset = some true ↔ byteAt bytes offset = some guard.toUInt8 := by
  rw [guardIntact]
  cases byteAt bytes offset <;> simp

theorem checkGuardLoop_eq_scan (left : Nat) (offset : Int) :
    checkGuardLoop bytes guard left offset = scan (guardIntact bytes guard) (spanFrom offset left) := by
  induction left generalizing offset with
  | zero => rfl
  | succ left ih =>
      rw [checkGuardLoop, spanFrom_succ, scan, ← ih, guardIntact]
      cases byteAt bytes offset with
      | none => rfl
      | some byte =>
          by_cases same : byte = guard.toUInt8
          · simp [same]
          · simp [same]

theorem checkGuard_eq_scan (offset size : Int) :
    checkGuard bytes offset size guard = scan (guardIntact bytes guard) (spanFrom offset size) := by
  rw [checkGuard, checkGuardLoop_eq_scan, spanFrom, Int.toNat_natCast, ← spanFrom]

theorem checkGuardCompared_eq_scanned (left : Nat) (offset : Int) :
    checkGuardCompared bytes guard left offset = scanned (guardIntact bytes guard) (spanFrom offset left) := by
  induction left generalizing offset with
  | zero => rfl
  | succ left ih => simp only [checkGuardCompared, spanFrom_succ, scanned, ih, guardIntact_eq_true]

theorem checkGuardCompared_toNat (offset size : Int) :
    checkGuardCompared bytes guard size.toNat offset = scanned (guardIntact bytes guard) (spanFrom offset size) := by
  rw [checkGuardCompared_eq_scanned, spanFrom, Int.toNat_natCast, ← spanFrom]

theorem strides_left (stride : Int) (strides : Nat) :
    stride * (strides + 1 : Nat) = stride + stride * strides := by
  rw [Int.natCast_add, Int.natCast_one, Int.mul_add, Int.mul_one, Int.add_comm]

/-- The loop over the holes meets the footer after the last row. -/
theorem checkHoles_eq_scan (positive : 0 < p.stride) (strides rounds : Nat) {a : Int} (fuel : strides < rounds)
    (ends : a + p.stride * strides = p.size - p.footer) :
    checkHoles p bytes chunkSize holeSize rounds a =
        scan (guardIntact bytes p.guard) (spansFrom (a + chunkSize) p.stride strides holeSize) ∧
      checkHolesCompared p bytes chunkSize holeSize rounds a =
        scanned (guardIntact bytes p.guard) (spansFrom (a + chunkSize) p.stride strides holeSize) := by
  induction strides generalizing rounds a with
  | zero =>
      obtain ⟨rounds, rfl⟩ : ∃ n, rounds = n + 1 := ⟨rounds - 1, by omega⟩
      have footer : ¬ a ≠ p.size - p.footer := by simpa using ends
      rw [checkHoles, checkHolesCompared, if_neg footer, if_neg footer]
      exact ⟨rfl, rfl⟩
  | succ strides ih =>
      obtain ⟨rounds, rfl⟩ : ∃ n, rounds = n + 1 := ⟨rounds - 1, by omega⟩
      rw [strides_left] at ends
      have rest : 0 ≤ p.stride * strides := Int.mul_nonneg (Int.le_of_lt positive) (Int.natCast_nonneg _)
      have before : a ≠ p.size - p.footer := by omega
      obtain ⟨verdict, compared⟩ := ih rounds (by omega) (a := a + p.stride) (by omega)
      have next : a + p.stride + chunkSize = a + chunkSize + p.stride := by omega
      rw [next] at verdict compared
      rw [checkHoles, checkHolesCompared, if_pos before, if_pos before, verdict, compared, spansFrom_succ, scan_append,
        scanned_append, checkGuard_eq_scan, checkGuardCompared_toNat]
      exact ⟨rfl, rfl⟩

/-- The bytes around the elements of an array: its header, the holes after its rows and its footer. -/
def guardOffsets (p : OilParameter) : List Int :=
  let chunkSize := oilTypeSizeof p.cType * p.preN
  spanFrom 0 p.header ++ spansFrom (p.header + chunkSize) p.stride p.postN.toNat (p.stride - chunkSize) ++
    spanFrom (p.size - p.footer) p.footer

theorem chunk_hole_gint (sane : p.Sane) (fits : oilTypeSizeof p.cType * p.preN ≤ p.stride) :
    gint (oilTypeSizeof p.cType * p.preN) = oilTypeSizeof p.cType * p.preN ∧
    gint (p.stride - oilTypeSizeof p.cType * p.preN) = p.stride - oilTypeSizeof p.cType * p.preN := by
  have chunkNonneg : 0 ≤ oilTypeSizeof p.cType * p.preN := Int.mul_nonneg (by cases p.cType <;> decide) sane.preN
  obtain ⟨_, upper⟩ := sane.strideFits
  exact ⟨gint_of_inGint sane.chunkFits, gint_of_inGint ⟨by omega, by omega⟩⟩

theorem holes_eq_scan (bytes : List UInt8) (sane : p.Sane) (fits : oilTypeSizeof p.cType * p.preN ≤ p.stride)
    (hole : oilTypeSizeof p.cType * p.preN + holeSize = p.stride) :
    (if holeSize ≠ 0 then checkHoles p bytes (oilTypeSizeof p.cType * p.preN) holeSize (p.size.toNat + 1) p.header
        else some true) =
      scan (guardIntact bytes p.guard)
        (spansFrom (p.header + oilTypeSizeof p.cType * p.preN) p.stride p.postN.toNat holeSize) ∧
    (if holeSize ≠ 0 then
        checkHolesCompared p bytes (oilTypeSizeof p.cType * p.preN) holeSize (p.size.toNat + 1) p.header
        else []) =
      scanned (guardIntact bytes p.guard)
        (spansFrom (p.header + oilTypeSizeof p.cType * p.preN) p.stride p.postN.toNat holeSize) := by
  by_cases nothing : holeSize = 0
  · simp only [nothing, ne_eq, not_true_eq_false, if_false, spansFrom_of_no_width]
    exact ⟨rfl, rfl⟩
  · rw [if_pos nothing, if_pos nothing]
    have chunkNonneg : 0 ≤ oilTypeSizeof p.cType * p.preN := Int.mul_nonneg (by cases p.cType <;> decide) sane.preN
    obtain ⟨header, footer, _, postN, _, _, _, size⟩ := sane
    have positive : 0 < p.stride := by omega
    have each : 1 * p.postN ≤ p.stride * p.postN := Int.mul_le_mul_of_nonneg_right (by omega) postN
    refine checkHoles_eq_scan positive p.postN.toNat (p.size.toNat + 1) (by omega) ?_
    rw [Int.toNat_of_nonneg postN]
    omega

/-- `_check_violation` compares the bytes around the elements with the guard, in their order. -/
theorem checkArg_eq_scan (srcBytes bytes : List UInt8) (pointer : p.isPointer = true) (written : p.argClass ≠ .src)
    (sane : p.Sane) (fits : oilTypeSizeof p.cType * p.preN ≤ p.stride) :
    checkArg p (.buffer srcBytes) (.buffer bytes) = scan (guardIntact bytes p.guard) (guardOffsets p) := by
  obtain ⟨chunk, hole⟩ := chunk_hole_gint sane fits
  have notScale : ¬ p.isPointer = false := by simp [pointer]
  have parts : oilTypeSizeof p.cType * p.preN + (p.stride - oilTypeSizeof p.cType * p.preN) = p.stride := by omega
  obtain ⟨verdict, _⟩ := holes_eq_scan bytes sane fits parts
  rw [checkArg, if_neg notScale, if_neg written, guardOffsets]
  dsimp only
  rw [chunk, hole, List.append_assoc, scan_append, scan_append, ← verdict, ← checkGuard_eq_scan, ← checkGuard_eq_scan]
  cases checkGuard bytes 0 p.header p.guard with
  | none => rfl
  | some header =>
      cases header with
      | false => rfl
      | true =>
          by_cases nothing : p.stride - oilTypeSizeof p.cType * p.preN = 0
          · simp [nothing]
          · simp only [Option.bind_eq_bind, Option.bind_some, Bool.true_eq_false, if_false, ne_eq, nothing,
              not_false_eq_true, if_true]
            congr 1
            funext holes
            cases holes <;> rfl

/-- It stops at the first of them that differs. -/
theorem checkArgCompared_eq_scanned (bytes : List UInt8) (pointer : p.isPointer = true) (written : p.argClass ≠ .src)
    (sane : p.Sane) (fits : oilTypeSizeof p.cType * p.preN ≤ p.stride) :
    checkArgCompared p bytes = scanned (guardIntact bytes p.guard) (guardOffsets p) := by
  obtain ⟨chunk, hole⟩ := chunk_hole_gint sane fits
  have either : ¬ (p.isPointer = false ∨ p.argClass = .src) := by simp [pointer, written]
  have parts : oilTypeSizeof p.cType * p.preN + (p.stride - oilTypeSizeof p.cType * p.preN) = p.stride := by omega
  obtain ⟨verdict, compared⟩ := holes_eq_scan bytes sane fits parts
  have goesOn : (p.stride - oilTypeSizeof p.cType * p.preN = 0 ∨
      checkHoles p bytes (oilTypeSizeof p.cType * p.preN) (p.stride - oilTypeSizeof p.cType * p.preN)
        (p.size.toNat + 1) p.header = some true) ↔
      scan (guardIntact bytes p.guard) (spansFrom (p.header + oilTypeSizeof p.cType * p.preN) p.stride
        p.postN.toNat (p.stride - oilTypeSizeof p.cType * p.preN)) = some true := by
    rw [← verdict]
    by_cases nothing : p.stride - oilTypeSizeof p.cType * p.preN = 0 <;> simp [nothing]
  rw [checkArgCompared, if_neg either, guardOffsets]
  dsimp only
  rw [chunk, hole, compared, checkGuard_eq_scan, checkGuardCompared_toNat, checkGuardCompared_toNat, List.append_assoc,
    scanned_append, scanned_append]
  simp only [goesOn]

end Scanning

end Oil.Test
