import Oil.Funcs.Copy8x8.MipsRuns

namespace Oil.Funcs.Mips

open Oil.Data

section Program

open Instruction Register Label

/-- `LDF`, `LDB`, `SDF` and `SDB`: the accesses forward from an address, and backward to it. -/
def ldf (order : ByteOrder) : (target offset : Nat) → Register → Instruction :=
  if order = .bigEndian then ldl else ldr

def ldb (order : ByteOrder) : (target offset : Nat) → Register → Instruction :=
  if order = .bigEndian then ldr else ldl

def sdf (order : ByteOrder) : (source offset : Nat) → Register → Instruction :=
  if order = .bigEndian then sdl else sdr

def sdb (order : ByteOrder) : (source offset : Nat) → Register → Instruction :=
  if order = .bigEndian then sdr else sdl

/-- The assembly block of `oil_copy8x8_u8_gs2f`. -/
def copy8x8 (order : ByteOrder) : List Line :=
  [.code (andi r24 op1 7),
    .code (bne r24 r0 ldUnaligned),
    .code (andi r25 op0 7),
    .label ldAligned,
    .code (ld 8 0 op1),
    .code (addu op1 op1 op2),
    .code (ld 9 0 op1),
    .code (addu op1 op1 op2),
    .code (ld 10 0 op1),
    .code (addu op1 op1 op2),
    .code (ld 11 0 op1),
    .code (addu op1 op1 op2),
    .code (ld 12 0 op1),
    .code (addu op1 op1 op2),
    .code (ld 13 0 op1),
    .code (addu op1 op1 op2),
    .code (ld 14 0 op1),
    .code (addu op1 op1 op2),
    .code (ld 15 0 op1),
    .code (bne r25 r0 sdUnaligned),
    .code nop,
    .label sdAligned,
    .code (sd 8 0 op0),
    .code (addu op0 op0 op3),
    .code (sd 9 0 op0),
    .code (addu op0 op0 op3),
    .code (sd 10 0 op0),
    .code (addu op0 op0 op3),
    .code (sd 11 0 op0),
    .code (addu op0 op0 op3),
    .code (sd 12 0 op0),
    .code (addu op0 op0 op3),
    .code (sd 13 0 op0),
    .code (addu op0 op0 op3),
    .code (sd 14 0 op0),
    .code (addu op0 op0 op3),
    .code (sd 15 0 op0),
    .code (j finished),
    .code nop,
    .label ldUnaligned,
    .code (ldf order 8 0 op1),
    .code (ldb order 8 7 op1),
    .code (addu op1 op1 op2),
    .code (ldf order 9 0 op1),
    .code (ldb order 9 7 op1),
    .code (addu op1 op1 op2),
    .code (ldf order 10 0 op1),
    .code (ldb order 10 7 op1),
    .code (addu op1 op1 op2),
    .code (ldf order 11 0 op1),
    .code (ldb order 11 7 op1),
    .code (addu op1 op1 op2),
    .code (ldf order 12 0 op1),
    .code (ldb order 12 7 op1),
    .code (addu op1 op1 op2),
    .code (ldf order 13 0 op1),
    .code (ldb order 13 7 op1),
    .code (addu op1 op1 op2),
    .code (ldf order 14 0 op1),
    .code (ldb order 14 7 op1),
    .code (addu op1 op1 op2),
    .code (ldf order 15 0 op1),
    .code (ldb order 15 7 op1),
    .code (beq r25 r0 sdAligned),
    .code nop,
    .label sdUnaligned,
    .code (sdf order 8 0 op0),
    .code (sdb order 8 7 op0),
    .code (addu op0 op0 op3),
    .code (sdf order 9 0 op0),
    .code (sdb order 9 7 op0),
    .code (addu op0 op0 op3),
    .code (sdf order 10 0 op0),
    .code (sdb order 10 7 op0),
    .code (addu op0 op0 op3),
    .code (sdf order 11 0 op0),
    .code (sdb order 11 7 op0),
    .code (addu op0 op0 op3),
    .code (sdf order 12 0 op0),
    .code (sdb order 12 7 op0),
    .code (addu op0 op0 op3),
    .code (sdf order 13 0 op0),
    .code (sdb order 13 7 op0),
    .code (addu op0 op0 op3),
    .code (sdf order 14 0 op0),
    .code (sdb order 14 7 op0),
    .code (addu op0 op0 op3),
    .code (sdf order 15 0 op0),
    .code (sdb order 15 7 op0),
    .code (addu op0 op0 op3),
    .label finished]

end Program

/-- The operands as the constraints bind them; `before` holds the other registers. -/
def bindOperands (before : Machine) (dest dstr src sstr : BitVec 32) (mem : Memory) : Machine where
  words
    | .r0 => 0
    | .op0 => dest
    | .op1 => src
    | .op2 => sstr
    | .op3 => dstr
    | .r24 => before.words .r24
    | .r25 => before.words .r25
  doublewords := before.doublewords
  memory := mem

/-- `oil_copy8x8_u8_gs2f`, with more fuel than its block has lines. -/
def oilCopy8x8U8Gs2f (slots : DelaySlots) (order : ByteOrder) (before : Machine)
    (dest dstr src sstr : BitVec 32) (mem : Memory) : Option (Except Fault Memory) :=
  (run slots order (copy8x8 order) 200 (copy8x8 order) (bindOperands before dest dstr src sstr mem)).map
    fun result => result.map Machine.memory

section Blocks

def alignedLoads : List Instruction := rows (fun register => [.ld register 0 .op1]) (.addu .op1 .op1 .op2) 8 7

def unalignedLoads (order : ByteOrder) : List Instruction :=
  rows (fun register => [ldf order register 0 .op1, ldb order register 7 .op1]) (.addu .op1 .op1 .op2) 8 7

def alignedStores : List Instruction := rows (fun register => [.sd register 0 .op0]) (.addu .op0 .op0 .op3) 8 7

def unalignedStores (order : ByteOrder) : List Instruction :=
  rows (fun register => [sdf order register 0 .op0, sdb order register 7 .op0]) (.addu .op0 .op0 .op3) 8 7

variable (order : ByteOrder)

theorem copy8x8_entry : copy8x8 order =
    .code (.andi .r24 .op1 7) :: .code (.bne .r24 .r0 .ldUnaligned) :: .code (.andi .r25 .op0 7) ::
      codeFrom (copy8x8 order) .ldAligned := rfl

theorem codeFrom_ldAligned : codeFrom (copy8x8 order) .ldAligned =
    .label .ldAligned :: (alignedLoads.map .code ++
      .code (.bne .r25 .r0 .sdUnaligned) :: .code .nop :: codeFrom (copy8x8 order) .sdAligned) := rfl

theorem codeFrom_sdAligned : codeFrom (copy8x8 order) .sdAligned =
    .label .sdAligned :: (alignedStores.map .code ++
      .code (.j .finished) :: .code .nop :: codeFrom (copy8x8 order) .ldUnaligned) := rfl

theorem codeFrom_ldUnaligned : codeFrom (copy8x8 order) .ldUnaligned =
    .label .ldUnaligned :: ((unalignedLoads order).map .code ++
      .code (.beq .r25 .r0 .sdAligned) :: .code .nop :: codeFrom (copy8x8 order) .sdUnaligned) := rfl

theorem codeFrom_sdUnaligned : codeFrom (copy8x8 order) .sdUnaligned =
    .label .sdUnaligned :: ((unalignedStores order).map .code ++
      .code (.addu .op0 .op0 .op3) :: codeFrom (copy8x8 order) .finished) := rfl

theorem codeFrom_finished : codeFrom (copy8x8 order) .finished = [.label .finished] := rfl

end Blocks

section Accesses

variable (order : ByteOrder)

theorem address_zero (machine : Machine) (base : Register) : machine.address 0 base = machine.words base := by
  rw [Machine.address]
  grind

theorem ld_accesses : Accesses order .op1 (fun register => [.ld register 0 .op1]) (loadEffect order) Aligned where
  ends register machine fine := by
    simp only [Machine.executeAll, Machine.execute, address_zero, if_pos fine, Machine.load]
    rfl
  faults register machine bad :=
    ⟨.addressError (machine.words .op1), by
      simp only [Machine.executeAll, Machine.execute, address_zero, if_neg bad]⟩
  words _ _ := rfl

theorem sd_accesses : Accesses order .op0 (fun register => [.sd register 0 .op0]) (storeEffect order) Aligned where
  ends register machine fine := by
    simp only [Machine.executeAll, Machine.execute, address_zero, if_pos fine, Machine.store]
    rfl
  faults register machine bad :=
    ⟨.addressError (machine.words .op0), by
      simp only [Machine.executeAll, Machine.execute, address_zero, if_neg bad]⟩
  words _ _ := rfl

theorem ldf_ldb_accesses : Accesses order .op1
    (fun register => [ldf order register 0 .op1, ldb order register 7 .op1]) (loadEffect order) fun _ => True where
  ends register machine _ := by
    have forward : machine.execute order (ldf order register 0 .op1) =
        .ok (machine.load (loadForward order) register 0 .op1) := by cases order <;> rfl
    have backward (next : Machine) : next.execute order (ldb order register 7 .op1) =
        .ok (next.load (loadBackward order) register 7 .op1) := by cases order <;> rfl
    have pair := loadBackward_loadForward order machine.memory (machine.words .op1) (machine.doublewords register)
    simp only [Machine.executeAll, forward, backward, Machine.load, Machine.setDoubleword, address_zero,
      Function.update_self, Function.update_idem]
    exact congrArg (fun value => Except.ok (machine.setDoubleword register value)) pair
  faults _ _ bad := absurd trivial bad
  words _ _ := rfl

theorem sdf_sdb_accesses : Accesses order .op0
    (fun register => [sdf order register 0 .op0, sdb order register 7 .op0]) (storeEffect order) fun _ => True where
  ends register machine _ := by
    have forward : machine.execute order (sdf order register 0 .op0) =
        .ok (machine.store (storeForward order) register 0 .op0) := by cases order <;> rfl
    have backward (next : Machine) : next.execute order (sdb order register 7 .op0) =
        .ok (next.store (storeBackward order) register 7 .op0) := by cases order <;> rfl
    have pair := storeBackward_storeForward order machine.memory (machine.words .op0) (machine.doublewords register)
    simp only [Machine.executeAll, forward, backward, Machine.store, address_zero]
    exact congrArg (fun memory => Except.ok { machine with memory }) pair
  faults _ _ bad := absurd trivial bad
  words _ _ := rfl

end Accesses

section Alignment

variable {address stride : BitVec 32}

theorem andi_seven_eq_zero : address &&& 7 = 0 ↔ Aligned address := by
  have masked : (address &&& 7).toNat = address.toNat % 2 ^ 3 := by
    rw [BitVec.toNat_and]
    exact Nat.and_two_pow_sub_one_eq_mod _ 3
  rw [← BitVec.toNat_inj, masked, Aligned, Nat.dvd_iff_mod_eq_zero]
  rfl

theorem aligned_row (k : Nat) :
    Aligned (address + BitVec.ofNat 32 k * stride) ↔ 8 ∣ address.toNat + k % 2 ^ 32 * stride.toNat := by
  rw [Aligned, BitVec.toNat_add, BitVec.toNat_mul, BitVec.toNat_ofNat]
  omega

theorem rows_aligned_iff :
    (∀ k ≤ 7, Aligned (address + BitVec.ofNat 32 k * stride)) ↔ Aligned address ∧ Aligned stride := by
  constructor
  · intro all
    have first := (aligned_row 0).mp (all 0 (by omega))
    have second := (aligned_row 1).mp (all 1 (by omega))
    unfold Aligned
    omega
  · rintro ⟨base, step⟩ k _
    exact (aligned_row k).mpr (Nat.dvd_add base (Dvd.dvd.mul_left step _))

end Alignment

section Paths

variable (slots : DelaySlots) (order : ByteOrder) (machine : Machine)

/-- The stores taken for a content of `$25`. -/
def storeCode (flag : BitVec 32) : List Line :=
  codeFrom (copy8x8 order) (if flag = 0 then .sdAligned else .sdUnaligned)

/-- The loads taken for a content of `$24`. -/
def loadCode (flag : BitVec 32) : List Line :=
  codeFrom (copy8x8 order) (if flag = 0 then .ldAligned else .ldUnaligned)

def loadedRows : List (Row 8) := (List.range 8).map fun k => rowOf order (machine.doublewords (8 + k))

theorem finished_ends : EndsWithin slots order (copy8x8 order) 2 (codeFrom (copy8x8 order) .finished) machine
    (.ok machine) := by
  refine ⟨2, Nat.le_refl 2, fun fuel => ?_⟩
  rw [codeFrom_finished, Nat.add_comm]
  rfl

theorem jump_over_nop {instruction : Instruction} {label : Label} (rest : List Line)
    (jumps : machine.branch instruction = some label) :
    Reaches slots order (copy8x8 order) 1 (.code instruction :: .code .nop :: rest) machine
      (codeFrom (copy8x8 order) label) machine :=
  Reaches.jump _ jumps (by cases slots <;> rfl)

theorem fall_through {instruction : Instruction} (rest : List Line) (stays : machine.branch instruction = none)
    (executed : machine.execute order instruction = .ok machine) :
    Reaches slots order (copy8x8 order) 2 (.code instruction :: .code .nop :: rest) machine rest machine :=
  (Reaches.instruction _ stays executed).trans (Reaches.instruction _ rfl rfl)

/-- The stores end with the registers in memory, unless they are the aligned ones and a row is not. -/
theorem stores_end (flag : BitVec 32)
    (fine : flag = 0 → Aligned (machine.words .op0) ∧ Aligned (machine.words .op3)) :
    ∃ after, EndsWithin slots order (copy8x8 order) 27 (storeCode order flag) machine (.ok after) ∧
      after.memory =
        writeRows machine.memory (machine.words .op0) (machine.words .op3) (loadedRows order machine) := by
  let stored := afterRows (storeEffect order) .op0 .op3 8 7 machine
  by_cases aligned : flag = 0
  · have executed : machine.executeAll order alignedStores = .ok stored :=
      (sd_accesses order).rows_end (by decide) 7 8 machine (rows_aligned_iff.mpr (fine aligned))
    have jumps : stored.branch (.j .finished) = some .finished := rfl
    refine ⟨stored, ?_, afterRows_store order 7 8 machine⟩
    rw [storeCode, if_pos aligned, codeFrom_sdAligned]
    exact (((Reaches.label _ _ _).trans (Reaches.block _ (by decide) executed)).trans
      (jump_over_nop slots order _ _ jumps)).ends (finished_ends slots order stored) |>.mono (by decide)
  · have executed : machine.executeAll order (unalignedStores order) = .ok stored :=
      (sdf_sdb_accesses order).rows_end (by decide) 7 8 machine fun _ _ => trivial
    have plain : ∀ instruction ∈ unalignedStores order, instruction.plain = true := by
      cases order <;> decide
    let last := stored.setWord .op0 (stored.words .op0 + stored.words .op3)
    have advanced : stored.execute order (.addu .op0 .op0 .op3) = .ok last := rfl
    refine ⟨last, ?_, afterRows_store order 7 8 machine⟩
    rw [storeCode, if_neg aligned, codeFrom_sdUnaligned]
    exact (((Reaches.label _ _ _).trans (Reaches.block _ plain executed)).trans
      (Reaches.instruction _ rfl advanced)).ends (finished_ends slots order last) |>.mono (Nat.le_refl 27)

theorem stores_fault (bad : ¬ (Aligned (machine.words .op0) ∧ Aligned (machine.words .op3))) :
    ∃ fault, EndsWithin slots order (copy8x8 order) 16 (storeCode order 0) machine (.error fault) := by
  rw [← rows_aligned_iff] at bad
  obtain ⟨k, bad⟩ := not_forall.mp bad
  obtain ⟨within, bad⟩ := Classical.not_imp.mp bad
  obtain ⟨fault, executed⟩ : ∃ fault, machine.executeAll order alignedStores = .error fault :=
    (sd_accesses order).rows_fault (by decide) 7 8 machine within bad
  have plain : ∀ instruction ∈ alignedStores, instruction.plain = true := by decide
  refine ⟨fault, ?_⟩
  rw [storeCode, if_pos rfl, codeFrom_sdAligned]
  exact (Reaches.label _ _ _).ends (EndsWithin.block _ plain executed)

theorem stores_after_aligned (zero : machine.words .r0 = 0) :
    ∃ steps ≤ 2, Reaches slots order (copy8x8 order) steps
      (.code (.bne .r25 .r0 .sdUnaligned) :: .code .nop :: codeFrom (copy8x8 order) .sdAligned) machine
      (storeCode order (machine.words .r25)) machine := by
  by_cases aligned : machine.words .r25 = 0
  · have stays : machine.branch (.bne .r25 .r0 .sdUnaligned) = none := by
      simp only [Machine.branch, zero, aligned, ne_eq, not_true_eq_false, if_false]
    rw [storeCode, if_pos aligned]
    exact ⟨2, Nat.le_refl 2, fall_through slots order machine _ stays rfl⟩
  · have jumps : machine.branch (.bne .r25 .r0 .sdUnaligned) = some .sdUnaligned := by
      simp only [Machine.branch, zero, aligned, ne_eq, not_false_eq_true, if_true]
    rw [storeCode, if_neg aligned]
    exact ⟨1, by decide, jump_over_nop slots order machine _ jumps⟩

theorem stores_after_unaligned (zero : machine.words .r0 = 0) :
    ∃ steps ≤ 2, Reaches slots order (copy8x8 order) steps
      (.code (.beq .r25 .r0 .sdAligned) :: .code .nop :: codeFrom (copy8x8 order) .sdUnaligned) machine
      (storeCode order (machine.words .r25)) machine := by
  by_cases aligned : machine.words .r25 = 0
  · have jumps : machine.branch (.beq .r25 .r0 .sdAligned) = some .sdAligned := by
      simp only [Machine.branch, zero, aligned, if_true]
    rw [storeCode, if_pos aligned]
    exact ⟨1, by decide, jump_over_nop slots order machine _ jumps⟩
  · have stays : machine.branch (.beq .r25 .r0 .sdAligned) = none := by
      simp only [Machine.branch, zero, aligned, if_false]
    rw [storeCode, if_neg aligned]
    exact ⟨2, Nat.le_refl 2, fall_through slots order machine _ stays rfl⟩

/-- The loads reach the stores with the rows in the registers, unless they are the aligned ones
and a row is not. -/
theorem loads_reach (flag : BitVec 32) (zero : machine.words .r0 = 0)
    (fine : flag = 0 → Aligned (machine.words .op1) ∧ Aligned (machine.words .op2)) :
    ∃ steps ≤ 26, Reaches slots order (copy8x8 order) steps (loadCode order flag) machine
      (storeCode order (machine.words .r25)) (afterRows (loadEffect order) .op1 .op2 8 7 machine) := by
  let loaded := afterRows (loadEffect order) .op1 .op2 8 7 machine
  obtain ⟨_, words, _⟩ := afterRows_load order 7 8 machine
  have zeroAfter : loaded.words .r0 = 0 := (words .r0 (by decide)).trans zero
  have flagAfter : loaded.words .r25 = machine.words .r25 := words .r25 (by decide)
  by_cases aligned : flag = 0
  · have executed : machine.executeAll order alignedLoads = .ok loaded :=
      (ld_accesses order).rows_end (by decide) 7 8 machine (rows_aligned_iff.mpr (fine aligned))
    obtain ⟨more, within, stores⟩ := stores_after_aligned slots order loaded zeroAfter
    rw [flagAfter] at stores
    rw [loadCode, if_pos aligned, codeFrom_ldAligned]
    have length : alignedLoads.length = 15 := rfl
    exact ⟨_, by omega, ((Reaches.label _ _ _).trans (Reaches.block _ (by decide) executed)).trans stores⟩
  · have executed : machine.executeAll order (unalignedLoads order) = .ok loaded :=
      (ldf_ldb_accesses order).rows_end (by decide) 7 8 machine fun _ _ => trivial
    have plain : ∀ instruction ∈ unalignedLoads order, instruction.plain = true := by
      cases order <;> decide
    obtain ⟨more, within, stores⟩ := stores_after_unaligned slots order loaded zeroAfter
    rw [flagAfter] at stores
    rw [loadCode, if_neg aligned, codeFrom_ldUnaligned]
    have length : (unalignedLoads order).length = 23 := rfl
    exact ⟨_, by omega, ((Reaches.label _ _ _).trans (Reaches.block _ plain executed)).trans stores⟩

theorem loads_fault (bad : ¬ (Aligned (machine.words .op1) ∧ Aligned (machine.words .op2))) :
    ∃ fault, EndsWithin slots order (copy8x8 order) 16 (loadCode order 0) machine (.error fault) := by
  rw [← rows_aligned_iff] at bad
  obtain ⟨k, bad⟩ := not_forall.mp bad
  obtain ⟨within, bad⟩ := Classical.not_imp.mp bad
  obtain ⟨fault, executed⟩ : ∃ fault, machine.executeAll order alignedLoads = .error fault :=
    (ld_accesses order).rows_fault (by decide) 7 8 machine within bad
  have plain : ∀ instruction ∈ alignedLoads, instruction.plain = true := by decide
  refine ⟨fault, ?_⟩
  rw [loadCode, if_pos rfl, codeFrom_ldAligned]
  exact (Reaches.label _ _ _).ends (EndsWithin.block _ plain executed)

end Paths

section Copy

variable {slots : DelaySlots} {order : ByteOrder} {before : Machine} {dest dstr src sstr : BitVec 32} {mem : Memory}

/-- The low bits of `dest` reach `$25` with the delay slot of the first branch, or behind it. -/
def storesFlag (slots : DelaySlots) (before : Machine) (dest src : BitVec 32) : BitVec 32 :=
  match slots with
  | .noreorder => dest &&& 7
  | .reorder => if src &&& 7 = 0 then dest &&& 7 else before.words .r25

theorem entry_reaches (slots : DelaySlots) (order : ByteOrder) (before : Machine) (dest dstr src sstr : BitVec 32)
    (mem : Memory) :
    ∃ steps ≤ 3, ∃ entered : Machine,
      Reaches slots order (copy8x8 order) steps (copy8x8 order) (bindOperands before dest dstr src sstr mem)
        (loadCode order (src &&& 7)) entered ∧
      entered.memory = mem ∧ entered.words .r0 = 0 ∧ entered.words .r25 = storesFlag slots before dest src ∧
      entered.words .op0 = dest ∧ entered.words .op1 = src ∧ entered.words .op2 = sstr ∧
      entered.words .op3 = dstr := by
  let tested := (bindOperands before dest dstr src sstr mem).setWord .r24 (src &&& 7)
  let flagged := tested.setWord .r25 (dest &&& 7)
  have first (rest : List Line) : Reaches slots order (copy8x8 order) 1 (.code (.andi .r24 .op1 7) :: rest)
      (bindOperands before dest dstr src sstr mem) rest tested := Reaches.instruction rest rfl rfl
  have flag : tested.words .r24 = src &&& 7 := rfl
  have zero : tested.words .r0 = 0 := rfl
  by_cases aligned : src &&& 7 = 0
  · have stays : tested.branch (.bne .r24 .r0 .ldUnaligned) = none := by
      simp only [Machine.branch, flag, zero, aligned, ne_eq, not_true_eq_false, if_false]
    refine ⟨3, Nat.le_refl 3, flagged, ?_, rfl, rfl, ?_, rfl, rfl, rfl, rfl⟩
    · rw [loadCode, if_pos aligned, copy8x8_entry]
      exact ((first _).trans (Reaches.instruction _ stays rfl)).trans (Reaches.instruction _ rfl rfl)
    · cases slots with
      | noreorder => rfl
      | reorder => exact (if_pos aligned).symm
  · have jumps : tested.branch (.bne .r24 .r0 .ldUnaligned) = some .ldUnaligned := by
      simp only [Machine.branch, flag, zero, aligned, ne_eq, not_false_eq_true, if_true]
    rw [loadCode, if_neg aligned, copy8x8_entry]
    cases slots with
    | noreorder =>
        exact ⟨2, by decide, flagged, (first _).trans (Reaches.jump _ jumps rfl), rfl, rfl, rfl, rfl, rfl, rfl, rfl⟩
    | reorder =>
        exact ⟨2, by decide, tested, (first _).trans (Reaches.jump _ jumps rfl), rfl, rfl, (if_neg aligned).symm,
          rfl, rfl, rfl, rfl⟩

theorem loadedRows_eq (machine : Machine) :
    loadedRows order (afterRows (loadEffect order) .op1 .op2 8 7 machine) =
      readRows 8 machine.memory (machine.words .op1) (machine.words .op2) 8 := by
  obtain ⟨_, _, filled, _⟩ := afterRows_load order 7 8 machine
  rw [readRows_eq_map, loadedRows]
  refine List.map_congr_left fun k member => ?_
  rw [filled k (Nat.le_of_lt_succ (List.mem_range.mp member))]
  funext j
  rw [rowOf, loadWhole, lane_lane, readRow]

def StoresAligned (slots : DelaySlots) (before : Machine) (dest src : BitVec 32) : Prop :=
  match slots with
  | .noreorder => Aligned dest
  | .reorder => if Aligned src then Aligned dest else before.words .r25 = 0

theorem storesFlag_eq_zero : storesFlag slots before dest src = 0 ↔ StoresAligned slots before dest src := by
  cases slots with
  | noreorder => exact andi_seven_eq_zero
  | reorder =>
      simp only [storesFlag, StoresAligned, andi_seven_eq_zero]
      split
      · exact andi_seven_eq_zero
      · rfl

/-- What the block needs of the alignment of its operands. -/
def AlignmentFits (slots : DelaySlots) (before : Machine) (dest dstr src sstr : BitVec 32) : Prop :=
  (Aligned src → Aligned sstr) ∧ (StoresAligned slots before dest src → Aligned dest ∧ Aligned dstr)

theorem gs2f_ends (fits : AlignmentFits slots before dest dstr src sstr) :
    oilCopy8x8U8Gs2f slots order before dest dstr src sstr mem = some (.ok (copied mem dest dstr src sstr)) := by
  obtain ⟨loadsFit, storesFit⟩ := fits
  obtain ⟨entry, _, entered, enters, memory, zero, flag, op0, op1, op2, op3⟩ :=
    entry_reaches slots order before dest dstr src sstr mem
  obtain ⟨loadedMemory, words, _⟩ := afterRows_load order 7 8 entered
  obtain ⟨loads, _, reaches⟩ := loads_reach slots order entered (src &&& 7) zero (by
    rw [andi_seven_eq_zero, op1, op2]
    exact fun aligned => ⟨aligned, loadsFit aligned⟩)
  obtain ⟨after, ends, stored⟩ := stores_end slots order (afterRows (loadEffect order) .op1 .op2 8 7 entered)
    (entered.words .r25) (by
      rw [flag, storesFlag_eq_zero, words .op0 (by decide), words .op3 (by decide), op0, op3]
      exact storesFit)
  rw [words .op0 (by decide), words .op3 (by decide), loadedMemory, loadedRows_eq, memory, op0, op1, op2,
    op3] at stored
  rw [oilCopy8x8U8Gs2f, (enters.ends (reaches.ends ends)).with_fuel (by omega)]
  exact congrArg (fun memory => some (Except.ok memory)) stored

theorem gs2f_faults (unfit : ¬ AlignmentFits slots before dest dstr src sstr) :
    ∃ fault, oilCopy8x8U8Gs2f slots order before dest dstr src sstr mem = some (.error fault) := by
  obtain ⟨entry, _, entered, enters, memory, zero, flag, op0, op1, op2, op3⟩ :=
    entry_reaches slots order before dest dstr src sstr mem
  obtain ⟨_, words, _⟩ := afterRows_load order 7 8 entered
  by_cases loadsFit : Aligned src → Aligned sstr
  · have storesUnfit := fun storesFit => unfit ⟨loadsFit, storesFit⟩
    obtain ⟨taken, misaligned⟩ := Classical.not_imp.mp storesUnfit
    have selected : entered.words .r25 = 0 := flag.trans (storesFlag_eq_zero.mpr taken)
    obtain ⟨loads, _, reaches⟩ := loads_reach slots order entered (src &&& 7) zero (by
      rw [andi_seven_eq_zero, op1, op2]
      exact fun aligned => ⟨aligned, loadsFit aligned⟩)
    obtain ⟨fault, ends⟩ := stores_fault slots order (afterRows (loadEffect order) .op1 .op2 8 7 entered) (by
      rwa [words .op0 (by decide), words .op3 (by decide), op0, op3])
    rw [selected] at reaches
    refine ⟨fault, ?_⟩
    rw [oilCopy8x8U8Gs2f, (enters.ends (reaches.ends ends)).with_fuel (by omega)]
    rfl
  · obtain ⟨aligned, misaligned⟩ := Classical.not_imp.mp loadsFit
    rw [andi_seven_eq_zero.mpr aligned] at enters
    obtain ⟨fault, ends⟩ := loads_fault slots order entered (by
      rw [op1, op2]
      exact fun both => misaligned both.2)
    refine ⟨fault, ?_⟩
    rw [oilCopy8x8U8Gs2f, (enters.ends ends).with_fuel (by omega)]
    rfl

/-- On blocks whose rows are apart, in either byte order, the doubleword copy ends with what the
reference leaves in memory exactly if every row it accesses as a whole is aligned. -/
theorem gs2f_copies_iff (slots : DelaySlots) (order : ByteOrder) (before : Machine) (mem : Memory)
    (apart : BlocksApart dest dstr src sstr) :
    oilCopy8x8U8Gs2f slots order before dest dstr src sstr mem =
        some (.ok (oilCopy8x8U8Ref dest dstr src sstr mem)) ↔
      (Aligned src → Aligned sstr) ∧
      (StoresAligned slots before dest src → Aligned dest ∧ Aligned dstr) := by
  have same : oilCopy8x8U8Ref dest dstr src sstr mem = copied mem dest dstr src sstr := oilCopy8x8U8Ref_eq apart
  rw [same]
  constructor
  · intro copies
    by_contra unfit
    obtain ⟨fault, faults⟩ : ∃ fault, oilCopy8x8U8Gs2f slots order before dest dstr src sstr mem =
      some (.error fault) := gs2f_faults unfit
    rw [faults] at copies
    exact absurd (Option.some.inj copies) nofun
  · exact gs2f_ends

def idleMachine : Machine := ⟨fun _ => 0, fun _ _ => 0, fun _ => 0⟩

theorem gs2f_copies_iff_aligned :
    oilCopy8x8U8Gs2f .noreorder .littleEndian idleMachine 4097 9 8192 16 (fun x => x.setWidth 8) =
      some (.ok (oilCopy8x8U8Ref 4097 9 8192 16 (fun x => x.setWidth 8))) :=
  (gs2f_copies_iff .noreorder .littleEndian idleMachine _ (by decide +kernel)).mpr
    (by unfold StoresAligned; decide)

/-- An aligned source with a stride of 9 bytes faults at the second row. -/
theorem gs2f_faults_misaligned :
    ¬ ∀ (slots : DelaySlots) (order : ByteOrder) (before : Machine) (mem : Memory)
        (dest dstr src sstr : BitVec 32), BlocksApart dest dstr src sstr →
      oilCopy8x8U8Gs2f slots order before dest dstr src sstr mem =
        some (.ok (oilCopy8x8U8Ref dest dstr src sstr mem)) := by
  intro copies
  have copied := copies .noreorder .littleEndian idleMachine (fun _ => 0) 4096 8 8192 9 (by decide +kernel)
  have fails : (oilCopy8x8U8Gs2f .noreorder .littleEndian idleMachine 4096 8 8192 9 fun _ => 0).map
      (fun result => result.isOk) = some false := by
    decide +kernel
  rw [copied] at fails
  contradiction

end Copy

end Oil.Funcs.Mips
