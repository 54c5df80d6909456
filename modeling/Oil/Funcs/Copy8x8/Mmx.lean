import Oil.Funcs.Copy8x8.Reference

namespace Oil.Funcs.Mmx

open Oil.Data

/-! # The MMX copy

The instructions of the assembly block, in AT&T order (source before target). -/

/-- The registers bound to the operands `%0` (`a`), `%1` (`c`), `%2` and `%3` (any others), and `edi`. -/
inductive Register where
  | eax | ecx | sstr | dstr | edi
deriving DecidableEq

inductive MmxRegister where
  | mm0 | mm1 | mm2 | mm3
deriving DecidableEq

structure Operand where
  base : Register
  index : Option (Register × Nat)

inductive Instruction where
  | lea (source : Operand) (target : Register)
  | movqLoad (source : Operand) (target : MmxRegister)
  | movqStore (source : MmxRegister) (target : Operand)
  | emms

structure Machine where
  registers : Register → BitVec 32
  mmx : MmxRegister → Row 8
  memory : Memory

namespace Machine

variable (machine : Machine)

def effective (operand : Operand) : BitVec 32 :=
  match operand.index with
  | none => machine.registers operand.base
  | some (index, scale) => machine.registers operand.base + machine.registers index * BitVec.ofNat 32 scale

def step : Instruction → Machine
  | .lea source target =>
      { machine with registers := Function.update machine.registers target (machine.effective source) }
  | .movqLoad source target =>
      { machine with
          mmx := Function.update machine.mmx target (readRow 8 machine.memory (machine.effective source)) }
  | .movqStore source target =>
      { machine with memory := writeRow machine.memory (machine.effective target) (machine.mmx source) }
  | .emms => machine

def run (instructions : List Instruction) : Machine := instructions.foldl step machine

end Machine

section Program

open Instruction Register MmxRegister

/-- The assembly block of `oil_copy8x8_u8_mmx`. -/
def copy8x8 : List Instruction :=
  [lea ⟨sstr, some (sstr, 2)⟩ edi,
    movqLoad ⟨ecx, none⟩ mm0,
    movqLoad ⟨ecx, some (sstr, 1)⟩ mm1,
    movqLoad ⟨ecx, some (sstr, 2)⟩ mm2,
    movqLoad ⟨ecx, some (edi, 1)⟩ mm3,
    lea ⟨ecx, some (sstr, 4)⟩ ecx,
    movqStore mm0 ⟨eax, none⟩,
    movqStore mm1 ⟨eax, some (sstr, 1)⟩,
    movqStore mm2 ⟨eax, some (sstr, 2)⟩,
    movqStore mm3 ⟨eax, some (edi, 1)⟩,
    lea ⟨eax, some (sstr, 4)⟩ eax,
    movqLoad ⟨ecx, none⟩ mm0,
    movqLoad ⟨ecx, some (sstr, 1)⟩ mm1,
    movqLoad ⟨ecx, some (sstr, 2)⟩ mm2,
    movqLoad ⟨ecx, some (edi, 1)⟩ mm3,
    movqStore mm0 ⟨eax, none⟩,
    movqStore mm1 ⟨eax, some (sstr, 1)⟩,
    movqStore mm2 ⟨eax, some (sstr, 2)⟩,
    movqStore mm3 ⟨eax, some (edi, 1)⟩,
    emms]

end Program

/-- The operands as the constraints bind them; `before` holds the other registers. -/
def bindOperands (before : Machine) (dest dstr src sstr : BitVec 32) (mem : Memory) : Machine where
  registers
    | .eax => dest
    | .ecx => src
    | .sstr => sstr
    | .dstr => dstr
    | .edi => before.registers .edi
  mmx := before.mmx
  memory := mem

def oilCopy8x8U8Mmx (before : Machine) (dest dstr src sstr : BitVec 32) (mem : Memory) : Memory :=
  ((bindOperands before dest dstr src sstr mem).run copy8x8).memory

section Halves

variable {before : Machine} {dest dstr src sstr : BitVec 32} {mem : Memory}

theorem oilCopy8x8U8Mmx_halves :
    oilCopy8x8U8Mmx before dest dstr src sstr mem =
      writeRows (writeRows mem dest sstr (readRows 8 mem src sstr 4)) (dest + BitVec.ofNat 32 4 * sstr) sstr
        (readRows 8 (writeRows mem dest sstr (readRows 8 mem src sstr 4)) (src + BitVec.ofNat 32 4 * sstr)
          sstr 4) := by
  have two (address : BitVec 32) : address + sstr * 2#32 = address + sstr + sstr := by grind
  have three (address : BitVec 32) : address + (sstr + sstr + sstr) = address + sstr + sstr + sstr := by grind
  have four (address : BitVec 32) : address + sstr * 4#32 = address + 4#32 * sstr := by grind
  simp [oilCopy8x8U8Mmx, copy8x8, Machine.run, Machine.step, Machine.effective, bindOperands, Function.update,
    readRows, writeRows, two, three, four]

/-- The first half of the rows is written apart from the rows still to be read: a byte in common
would be one of a source row and the first destination row. -/
theorem halves_apart (apart : BlocksApart dest dstr src sstr) :
    ∀ i < 4, ∀ k < 4, RowsApart 8 (dest + BitVec.ofNat 32 i * sstr)
      (src + BitVec.ofNat 32 4 * sstr + BitVec.ofNat 32 k * sstr) := by
  intro i boundI k boundK a boundA b boundB same
  have apart := apart 0 (by omega) (4 + k - i) (by omega) a boundA b boundB
  have back : BitVec.ofNat 32 (4 + k - i) + BitVec.ofNat 32 i = BitVec.ofNat 32 4 + BitVec.ofNat 32 k := by
    rw [← BitVec.ofNat_add, ← BitVec.ofNat_add, Nat.sub_add_cancel (by omega)]
  rw [row_zero] at apart
  apply apart
  grind

theorem oilCopy8x8U8Mmx_eq (before : Machine) (apart : BlocksApart dest dstr src sstr) :
    oilCopy8x8U8Mmx before dest dstr src sstr mem = copied mem dest sstr src sstr := by
  have unwritten := halves_apart apart
  rw [oilCopy8x8U8Mmx_halves, readRows_writeRows_apart _ 4 (by rwa [readRows_length]), copied, readRows_add 4 4,
    writeRows_append, readRows_length]

end Halves

section Strides

variable {dest dstr src sstr : BitVec 32}

theorem copied_last (mem : Memory) {j : Nat} (bound : j < 8) :
    copied mem dest dstr src sstr (dest + BitVec.ofNat 32 7 * dstr + BitVec.ofNat 32 j) =
      mem (src + BitVec.ofNat 32 7 * sstr + BitVec.ofNat 32 j) := by
  rw [copied, readRows_add 7 1, readRows, readRows]
  have written := writeRows_last mem dest dstr (by decide) (readRows 8 mem src sstr 7)
    (readRow 8 mem (src + BitVec.ofNat 32 7 * sstr)) bound
  rwa [readRows_length] at written

/-- Copying with another destination stride makes no difference only if the strides agree: a mark
in the last source row has to end up in the last destination row. -/
theorem strides_agree (apart : BlocksApart dest dstr src sstr)
    (same : ∀ mem, copied mem dest sstr src sstr = copied mem dest dstr src sstr) : dstr = sstr := by
  have marked := congrFun (same fun x => if x = src + BitVec.ofNat 32 7 * sstr then 1 else 0)
    (dest + BitVec.ofNat 32 7 * dstr + BitVec.ofNat 32 0)
  rw [copied_last _ (by omega), if_pos (by grind), copied] at marked
  rcases writeRows_cases (fun x => if x = src + BitVec.ofNat 32 7 * sstr then 1 else 0) dest sstr
      (readRows 8 (fun x => if x = src + BitVec.ofNat 32 7 * sstr then 1 else 0) src sstr 8)
      (dest + BitVec.ofNat 32 7 * dstr + BitVec.ofNat 32 0) with ⟨i, row, found, j, bound, here, written⟩ | kept
  · rw [written, readRows_getElem? found, readRow] at marked
    split at marked
    case isTrue there =>
      have sevenfold : BitVec.ofNat 32 7 * dstr = BitVec.ofNat 32 7 * sstr := by grind
      -- 7 is odd, and so has an inverse modulo 2 ^ 32
      calc dstr = BitVec.ofNat 32 3067833783 * (BitVec.ofNat 32 7 * dstr) := by grind
        _ = BitVec.ofNat 32 3067833783 * (BitVec.ofNat 32 7 * sstr) := by rw [sevenfold]
        _ = sstr := by grind
    case isFalse => exact absurd marked (by decide)
  · rw [kept] at marked
    split at marked
    case isTrue there => exact absurd (by grind) (apart 7 (by omega) 7 (by omega) 0 (by omega) 0 (by omega))
    case isFalse => exact absurd marked (by decide)

/-- On blocks whose rows are apart, the MMX copy is right for every memory exactly if the two
strides are equal. -/
theorem mmx_copies_iff (before : Machine) (apart : BlocksApart dest dstr src sstr) :
    (∀ mem, oilCopy8x8U8Mmx before dest dstr src sstr mem = oilCopy8x8U8Ref dest dstr src sstr mem) ↔
      dstr = sstr := by
  constructor
  · intro same
    refine strides_agree apart fun mem => ?_
    rw [← oilCopy8x8U8Mmx_eq before apart, ← oilCopy8x8U8Ref_eq apart]
    exact same mem
  · rintro rfl mem
    rw [oilCopy8x8U8Mmx_eq before apart, oilCopy8x8U8Ref_eq apart]

def cleared : Machine := ⟨fun _ => 0, fun _ _ => 0, fun _ => 0⟩

theorem mmx_copies_iff_equal :
    oilCopy8x8U8Mmx cleared 4096 16 8192 16 (fun x => x.setWidth 8) =
      oilCopy8x8U8Ref 4096 16 8192 16 (fun x => x.setWidth 8) :=
  (mmx_copies_iff cleared (by decide +kernel)).mpr rfl _

theorem mmx_misplaces_rows :
    ¬ ∀ (before : Machine) (mem : Memory) (dest dstr src sstr : BitVec 32), BlocksApart dest dstr src sstr →
      oilCopy8x8U8Mmx before dest dstr src sstr mem = oilCopy8x8U8Ref dest dstr src sstr mem := by
  intro copies
  have same := copies cleared (fun x => if x = 8208 then 1 else 0) 4096 8 8192 16 (by decide +kernel)
  have second := congrFun same 4104
  revert second
  decide +kernel

end Strides

end Oil.Funcs.Mmx
