import Oil.Funcs.Copy8x8.Mips

namespace Oil.Funcs.Mips

open Oil.Data

variable {slots : DelaySlots} {order : ByteOrder} {program code code' : List Line} {machine after : Machine}

section Straight

def Machine.executeAll (order : ByteOrder) (machine : Machine) : List Instruction → Except Fault Machine
  | [] => .ok machine
  | instruction :: rest =>
      match machine.execute order instruction with
      | .error fault => .error fault
      | .ok after => after.executeAll order rest

theorem Machine.executeAll_append (first second : List Instruction) :
    machine.executeAll order (first ++ second) =
      match machine.executeAll order first with
      | .error fault => .error fault
      | .ok after => after.executeAll order second := by
  induction first generalizing machine with
  | nil => rfl
  | cons instruction first ih =>
      rw [List.cons_append, executeAll, executeAll]
      cases machine.execute order instruction with
      | error fault => rfl
      | ok after => exact ih

/-- An instruction that never jumps. -/
def Instruction.plain : Instruction → Bool
  | .bne .. | .beq .. | .j .. => false
  | _ => true

theorem Machine.branch_of_plain {instruction : Instruction} (plain : instruction.plain = true) :
    machine.branch instruction = none := by
  cases instruction with
  | bne | beq | j => contradiction
  | _ => rfl

end Straight

section Runs

variable (slots order program)

/-- After so many steps the run goes on with other code on another machine. -/
def Reaches (steps : Nat) (code : List Line) (machine : Machine) (code' : List Line) (after : Machine) : Prop :=
  ∀ fuel, run slots order program (steps + fuel) code machine = run slots order program fuel code' after

def EndsWithin (bound : Nat) (code : List Line) (machine : Machine) (result : Except Fault Machine) : Prop :=
  ∃ steps ≤ bound, ∀ fuel, run slots order program (steps + fuel) code machine = some result

variable {slots order program}

theorem Reaches.trans {first second : Nat} {code'' : List Line} {last : Machine}
    (one : Reaches slots order program first code machine code' after)
    (two : Reaches slots order program second code' after code'' last) :
    Reaches slots order program (first + second) code machine code'' last := by
  intro fuel
  rw [Nat.add_assoc, one, two]

theorem Reaches.ends {steps bound : Nat} {result : Except Fault Machine}
    (reaches : Reaches slots order program steps code machine code' after)
    (ends : EndsWithin slots order program bound code' after result) :
    EndsWithin slots order program (steps + bound) code machine result := by
  obtain ⟨more, within, ends⟩ := ends
  refine ⟨steps + more, by omega, fun fuel => ?_⟩
  rw [Nat.add_assoc, reaches, ends]

theorem EndsWithin.mono {bound more : Nat} {result : Except Fault Machine}
    (ends : EndsWithin slots order program bound code machine result) (within : bound ≤ more) :
    EndsWithin slots order program more code machine result := by
  obtain ⟨steps, below, ends⟩ := ends
  exact ⟨steps, Nat.le_trans below within, ends⟩

theorem EndsWithin.with_fuel {bound fuel : Nat} {result : Except Fault Machine}
    (ends : EndsWithin slots order program bound code machine result) (enough : bound ≤ fuel) :
    run slots order program fuel code machine = some result := by
  obtain ⟨steps, within, ends⟩ := ends
  have all := ends (fuel - steps)
  rwa [Nat.add_sub_cancel' (by omega)] at all

theorem Reaches.label (label : Label) (rest : List Line) (machine : Machine) :
    Reaches slots order program 1 (.label label :: rest) machine rest machine := by
  intro fuel
  rw [Nat.add_comm]
  rfl

theorem Reaches.instruction {instruction : Instruction} (rest : List Line)
    (stays : machine.branch instruction = none) (executed : machine.execute order instruction = .ok after) :
    Reaches slots order program 1 (.code instruction :: rest) machine rest after := by
  intro fuel
  rw [Nat.add_comm, run, stays]
  simp only [executed]

/-- A jump whose delay slot, if it has one in the code, changes the machine to `after`. -/
theorem Reaches.jump {instruction : Instruction} {label : Label} (rest : List Line)
    (jumps : machine.branch instruction = some label)
    (slot : match slots with
      | .reorder => after = machine
      | .noreorder => machine.execute order (slotOf rest) = .ok after) :
    Reaches slots order program 1 (.code instruction :: rest) machine (codeFrom program label) after := by
  intro fuel
  rw [Nat.add_comm, run, jumps]
  cases slots with
  | reorder =>
      obtain rfl := slot
      rfl
  | noreorder => simp only [show machine.execute order (slotOf rest) = .ok after from slot]

theorem Reaches.block {block : List Instruction} (rest : List Line)
    (plain : ∀ instruction ∈ block, instruction.plain = true)
    (executed : machine.executeAll order block = .ok after) :
    Reaches slots order program block.length (block.map .code ++ rest) machine rest after := by
  induction block generalizing machine with
  | nil =>
      obtain rfl := Except.ok.inj executed
      intro fuel
      rw [List.length_nil, Nat.zero_add]
      rfl
  | cons instruction block ih =>
      rw [Machine.executeAll] at executed
      cases first : machine.execute order instruction with
      | error fault =>
          rw [first] at executed
          contradiction
      | ok next =>
          rw [first] at executed
          rw [List.length_cons, Nat.add_comm, List.map_cons, List.cons_append]
          exact (Reaches.instruction _ (Machine.branch_of_plain (plain _ (.head _))) first).trans
            (ih (fun other member => plain other (.tail _ member)) executed)

theorem EndsWithin.block {block : List Instruction} {fault : Fault} (rest : List Line)
    (plain : ∀ instruction ∈ block, instruction.plain = true)
    (executed : machine.executeAll order block = .error fault) :
    EndsWithin slots order program block.length (block.map .code ++ rest) machine (.error fault) := by
  induction block generalizing machine with
  | nil => contradiction
  | cons instruction block ih =>
      have stays : machine.branch instruction = none := Machine.branch_of_plain (plain _ (.head _))
      rw [Machine.executeAll] at executed
      rw [List.length_cons, Nat.add_comm, List.map_cons, List.cons_append]
      cases first : machine.execute order instruction with
      | error fault' =>
          rw [first] at executed
          obtain rfl := Except.error.inj executed
          refine ⟨1, by omega, fun fuel => ?_⟩
          rw [Nat.add_comm, run, stays]
          simp only [first]
      | ok next =>
          rw [first] at executed
          exact (Reaches.instruction _ stays first).ends
            (ih (fun other member => plain other (.tail _ member)) executed)

end Runs

section Rows

/-- Accesses to consecutive registers, with a pointer moved on in between. -/
def rows (access : Nat → List Instruction) (advance : Instruction) : (register more : Nat) → List Instruction
  | register, 0 => access register
  | register, more + 1 => access register ++ advance :: rows access advance (register + 1) more

/-- What accessing a register does at the row `pointer` points to, unless it faults there. -/
structure Accesses (order : ByteOrder) (pointer : Register) (access : Nat → List Instruction)
    (effect : Nat → Machine → Machine) (fine : BitVec 32 → Prop) : Prop where
  ends : ∀ (register : Nat) (machine : Machine), fine (machine.words pointer) →
    machine.executeAll order (access register) = .ok (effect register machine)
  faults : ∀ (register : Nat) (machine : Machine), ¬ fine (machine.words pointer) →
    ∃ fault, machine.executeAll order (access register) = .error fault
  words : ∀ (register : Nat) (machine : Machine), (effect register machine).words = machine.words

/-- The machine after the accesses to one register, with the pointer moved on. -/
def moved (effect : Nat → Machine → Machine) (pointer stride : Register) (register : Nat) (machine : Machine) :
    Machine :=
  (effect register machine).setWord pointer (machine.words pointer + machine.words stride)

def afterRows (effect : Nat → Machine → Machine) (pointer stride : Register) :
    (register more : Nat) → Machine → Machine
  | register, 0, machine => effect register machine
  | register, more + 1, machine =>
      afterRows effect pointer stride (register + 1) more (moved effect pointer stride register machine)

section General

variable {pointer stride : Register} {access : Nat → List Instruction} {effect : Nat → Machine → Machine}
  {fine : BitVec 32 → Prop}

theorem Accesses.moved_pointer (register : Nat) (machine : Machine) :
    (moved effect pointer stride register machine).words pointer = machine.words pointer + machine.words stride :=
  Function.update_self ..

theorem Accesses.moved_words (accesses : Accesses order pointer access effect fine) (stride : Register)
    (register : Nat)
    (machine : Machine) {word : Register} (other : word ≠ pointer) :
    (moved effect pointer stride register machine).words word = machine.words word := by
  rw [← accesses.words register machine]
  exact Function.update_of_ne other ..

theorem Accesses.execute_advance (accesses : Accesses order pointer access effect fine) {register : Nat}
    {machine : Machine} (rest : List Instruction) (first : fine (machine.words pointer)) :
    machine.executeAll order (access register ++ .addu pointer pointer stride :: rest) =
      (moved effect pointer stride register machine).executeAll order rest := by
  rw [Machine.executeAll_append, accesses.ends register machine first]
  simp only [Machine.executeAll, Machine.execute, accesses.words register machine]
  rfl

theorem Accesses.rows_end (accesses : Accesses order pointer access effect fine) (differ : stride ≠ pointer)
    (more register : Nat) (machine : Machine)
    (allFine : ∀ k ≤ more, fine (machine.words pointer + BitVec.ofNat 32 k * machine.words stride)) :
    machine.executeAll order (rows access (.addu pointer pointer stride) register more) =
      .ok (afterRows effect pointer stride register more machine) := by
  have first := allFine 0 (Nat.zero_le more)
  rw [row_zero] at first
  induction more generalizing register machine with
  | zero => exact accesses.ends register machine first
  | succ more ih =>
      have later : ∀ k ≤ more, fine ((moved effect pointer stride register machine).words pointer +
          BitVec.ofNat 32 k * (moved effect pointer stride register machine).words stride) := by
        intro k within
        rw [moved_pointer, accesses.moved_words stride register machine differ, row_succ]
        exact allFine (k + 1) (by omega)
      have second := later 0 (Nat.zero_le more)
      rw [row_zero] at second
      rw [rows, accesses.execute_advance _ first]
      exact ih (register + 1) _ later second

theorem Accesses.rows_fault (accesses : Accesses order pointer access effect fine) (differ : stride ≠ pointer)
    (more register : Nat) (machine : Machine) {k : Nat} (within : k ≤ more)
    (bad : ¬ fine (machine.words pointer + BitVec.ofNat 32 k * machine.words stride)) :
    ∃ fault, machine.executeAll order (rows access (.addu pointer pointer stride) register more) =
      .error fault := by
  induction more generalizing register machine k with
  | zero =>
      obtain rfl : k = 0 := by omega
      rw [row_zero] at bad
      exact accesses.faults register machine bad
  | succ more ih =>
      by_cases first : fine (machine.words pointer)
      · rw [rows, accesses.execute_advance _ first]
        cases k with
        | zero =>
            rw [row_zero] at bad
            contradiction
        | succ k =>
            rw [← row_succ, ← moved_pointer register machine,
              ← accesses.moved_words stride register machine differ] at bad
            exact ih (register + 1) _ (Nat.le_of_succ_le_succ within) bad
      · obtain ⟨fault, executed⟩ := accesses.faults register machine first
        exact ⟨fault, by rw [rows, Machine.executeAll_append, executed]⟩

end General

/-- Loading a register from the row `%1` points to. -/
def loadEffect (order : ByteOrder) (register : Nat) (machine : Machine) : Machine :=
  machine.setDoubleword register (loadWhole order machine.memory (machine.words .op1))

/-- Storing a register to the row `%0` points to. -/
def storeEffect (order : ByteOrder) (register : Nat) (machine : Machine) : Machine :=
  { machine with memory := storeWhole order machine.memory (machine.words .op0) (machine.doublewords register) }

/-- Loading rows fills the registers and moves `%1` on; nothing else changes. -/
theorem afterRows_load (order : ByteOrder) (more register : Nat) (machine : Machine) :
    (afterRows (loadEffect order) .op1 .op2 register more machine).memory = machine.memory ∧
    (∀ word, word ≠ .op1 →
      (afterRows (loadEffect order) .op1 .op2 register more machine).words word = machine.words word) ∧
    (∀ k ≤ more, (afterRows (loadEffect order) .op1 .op2 register more machine).doublewords (register + k) =
      loadWhole order machine.memory (machine.words .op1 + BitVec.ofNat 32 k * machine.words .op2)) ∧
    ∀ other < register, (afterRows (loadEffect order) .op1 .op2 register more machine).doublewords other =
      machine.doublewords other := by
  induction more generalizing register machine with
  | zero =>
      refine ⟨rfl, fun _ _ => rfl, fun k within => ?_, fun other below => ?_⟩
      · obtain rfl : k = 0 := by omega
        rw [row_zero]
        exact Function.update_self ..
      · exact Function.update_of_ne (Nat.ne_of_lt below) ..
  | succ more ih =>
      obtain ⟨memory, words, filled, kept⟩ :=
        ih (register + 1) (moved (loadEffect order) .op1 .op2 register machine)
      refine ⟨memory, fun word other => ?_, fun k within => ?_, fun other below => ?_⟩
      · rw [afterRows, words word other]
        exact Function.update_of_ne other ..
      · cases k with
        | zero =>
            rw [row_zero]
            exact (kept register (Nat.lt_succ_self register)).trans (Function.update_self ..)
        | succ k =>
            rw [← row_succ, afterRows, ← Nat.add_assoc, Nat.add_right_comm]
            exact filled k (by omega)
      · rw [afterRows, kept other (by omega)]
        exact Function.update_of_ne (Nat.ne_of_lt below) ..

def rowOf (order : ByteOrder) (register : Doubleword) : Row 8 := fun j => register (lane order j)

theorem afterRows_store (order : ByteOrder) (more register : Nat) (machine : Machine) :
    (afterRows (storeEffect order) .op0 .op3 register more machine).memory =
      writeRows machine.memory (machine.words .op0) (machine.words .op3)
        ((List.range (more + 1)).map fun k => rowOf order (machine.doublewords (register + k))) := by
  induction more generalizing register machine with
  | zero => rfl
  | succ more ih =>
      have later : (List.range (more + 1)).map
            ((fun k => rowOf order (machine.doublewords (register + k))) ∘ Nat.succ) =
          (List.range (more + 1)).map fun k =>
            rowOf order ((moved (storeEffect order) .op0 .op3 register machine).doublewords (register + 1 + k)) := by
        refine List.map_congr_left fun k _ => ?_
        rw [Nat.add_right_comm register 1 k]
        rfl
      rw [afterRows, ih, ← later, List.range_succ_eq_map (n := more + 1), List.map_cons, List.map_map, writeRows]
      rfl

end Rows

end Oil.Funcs.Mips
