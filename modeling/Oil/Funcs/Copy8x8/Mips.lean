import Oil.Funcs.Copy8x8.Reference

namespace Oil.Funcs.Mips

open Oil.Data

/-! # The part of MIPS III the doubleword copy uses

Addresses are 32 bits wide.  The registers that hold addresses and flags are modelled as
words, the registers `$8` to `$15` as the eight bytes of a doubleword. -/

inductive ByteOrder where
  | bigEndian | littleEndian
deriving DecidableEq

/-- Who fills the delay slots: the assembler (`.set reorder`), or the code (`.set noreorder`). -/
inductive DelaySlots where
  | reorder | noreorder
deriving DecidableEq

/-- `$0`, the operands `%0` to `%3`, and `$24` and `$25`. -/
inductive Register where
  | r0 | op0 | op1 | op2 | op3 | r24 | r25
deriving DecidableEq

/-- The bytes of a register, the least significant first. -/
abbrev Doubleword := Row 8

inductive Label where
  | ldAligned | sdAligned | ldUnaligned | sdUnaligned | finished
deriving DecidableEq

/-- The instructions.  Doubleword registers go by their number; an access takes an offset and a base. -/
inductive Instruction where
  | andi (target source : Register) (immediate : BitVec 32)
  | addu (target left right : Register)
  | ld (target offset : Nat) (base : Register)
  | ldl (target offset : Nat) (base : Register)
  | ldr (target offset : Nat) (base : Register)
  | sd (source offset : Nat) (base : Register)
  | sdl (source offset : Nat) (base : Register)
  | sdr (source offset : Nat) (base : Register)
  | bne (left right : Register) (label : Label)
  | beq (left right : Register) (label : Label)
  | j (label : Label)
  | nop
deriving DecidableEq

inductive Line where
  | label (label : Label)
  | code (instruction : Instruction)
deriving DecidableEq

structure Machine where
  words : Register → BitVec 32
  doublewords : Nat → Doubleword
  memory : Memory

inductive Fault where
  | addressError (address : BitVec 32)
deriving DecidableEq

section Accesses

variable (order : ByteOrder)

/-- The significance of the byte at a place of a doubleword, counted by address, and the place of
the byte of a significance. -/
def lane (j : Fin 8) : Fin 8 :=
  match order with
  | .bigEndian => j.rev
  | .littleEndian => j

def Aligned (address : BitVec 32) : Prop := 8 ∣ address.toNat

instance (address : BitVec 32) : Decidable (Aligned address) := inferInstanceAs (Decidable (8 ∣ _))

def placeOf (address : BitVec 32) : Nat := address.toNat % 8

theorem placeOf_lt (address : BitVec 32) : placeOf address < 8 := Nat.mod_lt _ (by decide)

def loadWhole (memory : Memory) (address : BitVec 32) : Doubleword := fun s =>
  memory (address + BitVec.ofNat 32 (lane order s))

/-- The bytes from the address to the end of its doubleword become the first bytes of the register. -/
def loadForward (memory : Memory) (address : BitVec 32) (register : Doubleword) : Doubleword := fun s =>
  if placeOf address + lane order s < 8 then memory (address + BitVec.ofNat 32 (lane order s)) else register s

/-- The bytes from the start of the doubleword to the address become the last bytes of the register. -/
def loadBackward (memory : Memory) (address : BitVec 32) (register : Doubleword) : Doubleword := fun s =>
  if 7 - lane order s ≤ placeOf address then memory (address - BitVec.ofNat 32 (7 - lane order s)) else register s

def storeWhole (memory : Memory) (address : BitVec 32) (register : Doubleword) : Memory :=
  writeRow memory address fun j => register (lane order j)

/-- The first bytes of the register go to the addresses up to the end of the doubleword. -/
def storeForward (memory : Memory) (address : BitVec 32) (register : Doubleword) : Memory := fun x =>
  if inside : placeOf address + (x - address).toNat < 8 then
    register (lane order ⟨(x - address).toNat, by omega⟩)
  else memory x

/-- The last bytes of the register go to the addresses down to the start of the doubleword. -/
def storeBackward (memory : Memory) (address : BitVec 32) (register : Doubleword) : Memory := fun x =>
  if (address - x).toNat ≤ placeOf address then
    register (lane order ⟨7 - (address - x).toNat, by omega⟩)
  else memory x

section Pairs

variable (memory : Memory) (address : BitVec 32) (register : Doubleword)

theorem placeOf_seven : placeOf (address + BitVec.ofNat 32 7) = (placeOf address + 7) % 8 := by
  rw [placeOf, placeOf, BitVec.toNat_add, BitVec.toNat_ofNat]
  omega

theorem loadBackward_loadForward :
    loadBackward order memory (address + BitVec.ofNat 32 7) (loadForward order memory address register) =
      loadWhole order memory address := by
  funext s
  have bound := (lane order s).isLt
  rw [loadBackward, placeOf_seven]
  split
  case isTrue last =>
    have parts : BitVec.ofNat 32 7 = BitVec.ofNat 32 (7 - lane order s) + BitVec.ofNat 32 (lane order s) := by
      rw [← BitVec.ofNat_add, Nat.sub_add_cancel (by omega)]
    rw [loadWhole]
    congr 1
    grind
  case isFalse first =>
    rw [loadForward, if_pos (by have := placeOf_lt address; omega), loadWhole]

theorem storeBackward_storeForward :
    storeBackward order (storeForward order memory address register) (address + BitVec.ofNat 32 7) register =
      storeWhole order memory address register := by
  funext x
  have place := placeOf_lt address
  have distance : (x - address).toNat < 8 ∧ (address + BitVec.ofNat 32 7 - x).toNat = 7 - (x - address).toNat ∨
      8 ≤ (x - address).toNat ∧ 8 ≤ (address + BitVec.ofNat 32 7 - x).toNat := by
    bv_omega
  rw [storeBackward, storeForward, storeWhole, writeRow, placeOf_seven]
  rcases distance with ⟨near, back⟩ | ⟨far, back⟩
  · rw [dif_pos near]
    split
    case isTrue last =>
      congr 3
      omega
    case isFalse first => rw [dif_pos (by omega)]
  · rw [if_neg (by omega), dif_neg (by omega), dif_neg (by omega)]

end Pairs

theorem lane_lane (j : Fin 8) : lane order (lane order j) = j := by
  cases order with
  | bigEndian => exact Fin.rev_rev j
  | littleEndian => rfl

end Accesses

namespace Machine

variable (machine : Machine)

def setWord (target : Register) (value : BitVec 32) : Machine :=
  { machine with words := Function.update machine.words target value }

def setDoubleword (target : Nat) (value : Doubleword) : Machine :=
  { machine with doublewords := Function.update machine.doublewords target value }

def address (offset : Nat) (base : Register) : BitVec 32 := machine.words base + BitVec.ofNat 32 offset

def load (merge : Memory → BitVec 32 → Doubleword → Doubleword) (target offset : Nat) (base : Register) : Machine :=
  machine.setDoubleword target
    (merge machine.memory (machine.address offset base) (machine.doublewords target))

def store (merge : Memory → BitVec 32 → Doubleword → Memory) (source offset : Nat) (base : Register) : Machine :=
  { machine with memory := merge machine.memory (machine.address offset base) (machine.doublewords source) }

/-- One instruction, for a branch the part without the jump.  The most significant bytes, which
`ldl` and `sdl` access, are at the lower addresses in big-endian order, and at the higher ones in
little-endian order. -/
def execute (order : ByteOrder) : Instruction → Except Fault Machine
  | .andi target source immediate => .ok (machine.setWord target (machine.words source &&& immediate))
  | .addu target left right => .ok (machine.setWord target (machine.words left + machine.words right))
  | .ld target offset base =>
      if Aligned (machine.address offset base) then
        .ok (machine.load (fun memory address _ => loadWhole order memory address) target offset base)
      else .error (.addressError (machine.address offset base))
  | .ldl target offset base =>
      match order with
      | .bigEndian => .ok (machine.load (loadForward order) target offset base)
      | .littleEndian => .ok (machine.load (loadBackward order) target offset base)
  | .ldr target offset base =>
      match order with
      | .bigEndian => .ok (machine.load (loadBackward order) target offset base)
      | .littleEndian => .ok (machine.load (loadForward order) target offset base)
  | .sd source offset base =>
      if Aligned (machine.address offset base) then .ok (machine.store (storeWhole order) source offset base)
      else .error (.addressError (machine.address offset base))
  | .sdl source offset base =>
      match order with
      | .bigEndian => .ok (machine.store (storeForward order) source offset base)
      | .littleEndian => .ok (machine.store (storeBackward order) source offset base)
  | .sdr source offset base =>
      match order with
      | .bigEndian => .ok (machine.store (storeBackward order) source offset base)
      | .littleEndian => .ok (machine.store (storeForward order) source offset base)
  | .bne .. | .beq .. | .j .. | .nop => .ok machine

def branch : Instruction → Option Label
  | .bne left right label => if machine.words left ≠ machine.words right then some label else none
  | .beq left right label => if machine.words left = machine.words right then some label else none
  | .j label => some label
  | _ => none

end Machine

def codeFrom (program : List Line) (label : Label) : List Line :=
  program.dropWhile fun line => decide (line ≠ .label label)

/-- The instruction in a delay slot at the start of the code. -/
def slotOf : List Line → Instruction
  | [] => .nop
  | .label _ :: rest => slotOf rest
  | .code instruction :: _ => instruction

/-- Runs code of a program, with no result when the fuel runs out.  Where the delay slots are
those of the code, a jump takes effect after the instruction behind it. -/
def run (slots : DelaySlots) (order : ByteOrder) (program : List Line) :
    (fuel : Nat) → List Line → Machine → Option (Except Fault Machine)
  | 0, _, _ => none
  | _ + 1, [], machine => some (.ok machine)
  | fuel + 1, .label _ :: rest, machine => run slots order program fuel rest machine
  | fuel + 1, .code instruction :: rest, machine =>
      match machine.branch instruction with
      | none =>
          match machine.execute order instruction with
          | .error fault => some (.error fault)
          | .ok machine => run slots order program fuel rest machine
      | some label =>
          match slots with
          | .reorder => run slots order program fuel (codeFrom program label) machine
          | .noreorder =>
              match machine.execute order (slotOf rest) with
              | .error fault => some (.error fault)
              | .ok machine => run slots order program fuel (codeFrom program label) machine

end Oil.Funcs.Mips
