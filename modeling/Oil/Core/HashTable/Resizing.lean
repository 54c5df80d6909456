import Mathlib.Algebra.Group.Action.Defs
import Mathlib.Algebra.Order.BigOperators.Group.List
import Oil.Core.HashTable.Refinement
import Oil.Data.Amortized

namespace Oil.Core.HashTable

open Oil.Data

/-! # What resizing costs

`_hash_table_resize` goes through all the slots of the old array and clears all those of the
new one.  Over a run this is paid for by the calls that fill slots and remove pairs. -/

variable {K V : Type} [Pointer K] [Pointer V]

/-- The slots that `_hash_table_maybe_resize` goes through and allocates. -/
def resizeWork (ht : HashTable K V) : Nat :=
  if ht.needsResize then ht.size + ((ht.setShiftFromSize (u32 (ht.nnodes * 2))).map HashTable.size).getD 0 else 0

variable [DecidableEq K]

/-- The table in which a call comes to `_hash_table_maybe_resize`, if it does. -/
def checked (ht : HashTable K V) : Call K V → Option (HashTable K V)
  | .insert key val =>
      if key = null then none else do
        let nodeIndex ← ht.lookupNodeForInsertion key
        let node ← ht.nodes[nodeIndex]?
        if node.keyHash = 0 then
          some { ht with
            nodes := ht.nodes.set nodeIndex ⟨key, val, ht.hashValue key⟩
            nnodes := u32 (ht.nnodes + 1)
            noccupied := u32 (ht.noccupied + 1) }
        else none
  | .lookup _ => none
  | .remove key =>
      if key = null then none else do
        let nodeIndex ← ht.lookupNode key
        let node ← ht.nodes[nodeIndex]?
        if node.keyHash = 0 then none else some (ht.removeNode nodeIndex node).1
  | .removeAll => some ht.removeAllNodes.1

def work (ht : HashTable K V) (call : Call K V) : Nat := ((ht.checked call).map resizeWork).getD 0

/-- The table a call leaves. -/
def after (ht : HashTable K V) (call : Call K V) : Option (HashTable K V) := (ht.step call).map Prod.fst

variable {ht next table : HashTable K V} {call : Call K V}

theorem after_checked (checks : ht.checked call = some table) : ht.after call = table.maybeResize := by
  cases call with
  | lookup key => contradiction
  | removeAll =>
      obtain rfl := Option.some.inj checks
      simp [after, step, removeAll]
  | insert key val =>
      simp only [checked] at checks
      split at checks
      · contradiction
      case isFalse nonNull =>
        obtain ⟨nodeIndex, probed, checks⟩ := Option.bind_eq_some_iff.mp checks
        obtain ⟨node, found, checks⟩ := Option.bind_eq_some_iff.mp checks
        split at checks
        case isTrue empty =>
          obtain rfl := Option.some.inj checks
          have notLive : node.live = false := by simp [HashNode.live, empty]
          simp [after, step, insert, nonNull, probed, found, notLive, empty]
        case isFalse => contradiction
  | remove key =>
      simp only [checked] at checks
      split at checks
      · contradiction
      case isFalse nonNull =>
        obtain ⟨nodeIndex, probed, checks⟩ := Option.bind_eq_some_iff.mp checks
        obtain ⟨node, found, checks⟩ := Option.bind_eq_some_iff.mp checks
        split at checks
        · contradiction
        case isFalse used =>
          obtain rfl := Option.some.inj checks
          simp [after, step, remove, nonNull, probed, found, used]

/-- What a call may add to the potential. -/
def credit : Call K V → Nat
  | .insert _ _ => 34
  | .lookup _ => 0
  | .remove _ => 4
  | .removeAll => 40

/-- The counters after a call that does not come to `_hash_table_maybe_resize`. -/
theorem unchecked_counters (small : ht.nnodes + 1 < 2 ^ 32) (checks : ht.checked call = none)
    (called : ht.after call = some next) :
    next.size = ht.size ∧ next.noccupied = ht.noccupied ∧
      ∃ stored, next.nnodes = ht.nnodes + stored ∧ 4 * stored ≤ credit call := by
  obtain ⟨⟨_, outcome, destroyed⟩, stepped, rfl⟩ := Option.map_eq_some_iff.mp called
  cases call with
  | removeAll => contradiction
  | lookup key =>
      obtain ⟨_, _, same⟩ := Option.map_eq_some_iff.mp stepped
      obtain ⟨rfl, _⟩ := Prod.mk.inj same
      exact ⟨rfl, rfl, 0, rfl, Nat.zero_le _⟩
  | insert key val =>
      obtain ⟨⟨_, _⟩, inserted, same⟩ := Option.map_eq_some_iff.mp stepped
      obtain ⟨rfl, _⟩ := Prod.mk.inj same
      simp only [insert] at inserted
      simp only [checked] at checks
      split at inserted
      case isTrue isNull =>
        obtain ⟨rfl, _⟩ := Prod.mk.inj (Option.some.inj inserted)
        exact ⟨rfl, rfl, 0, rfl, Nat.zero_le _⟩
      case isFalse nonNull =>
        obtain ⟨nodeIndex, probed, inserted⟩ := Option.bind_eq_some_iff.mp inserted
        obtain ⟨node, found, inserted⟩ := Option.bind_eq_some_iff.mp inserted
        simp only [if_neg nonNull, probed, found, Option.bind_eq_bind, Option.bind_some] at checks
        split at inserted
        case isTrue live =>
          obtain ⟨rfl, _⟩ := Prod.mk.inj (Option.some.inj inserted)
          exact ⟨rfl, rfl, 0, rfl, Nat.zero_le _⟩
        case isFalse notLive =>
          split at checks
          · contradiction
          case isFalse buried =>
            simp only [if_neg buried] at inserted
            obtain ⟨rfl, _⟩ := Prod.mk.inj (Option.some.inj inserted)
            exact ⟨rfl, rfl, 1, u32_of_lt small, by simp [credit]⟩
  | remove key =>
      obtain ⟨⟨_, _, _⟩, removed, same⟩ := Option.map_eq_some_iff.mp stepped
      obtain ⟨rfl, _⟩ := Prod.mk.inj same
      simp only [remove] at removed
      simp only [checked] at checks
      split at removed
      case isTrue isNull =>
        obtain ⟨_, rfl, _⟩ := Option.some.inj removed
        exact ⟨rfl, rfl, 0, rfl, Nat.zero_le _⟩
      case isFalse nonNull =>
        obtain ⟨nodeIndex, probed, removed⟩ := Option.bind_eq_some_iff.mp removed
        obtain ⟨node, found, removed⟩ := Option.bind_eq_some_iff.mp removed
        simp only [if_neg nonNull, probed, found, Option.bind_eq_bind, Option.bind_some] at checks
        split at checks
        case isTrue empty =>
          simp only [if_pos empty] at removed
          obtain ⟨_, rfl, _⟩ := Option.some.inj removed
          exact ⟨rfl, rfl, 0, rfl, Nat.zero_le _⟩
        case isFalse => contradiction

/-- What the calls that come to `_hash_table_maybe_resize` have done to the counters. -/
def Recounted (ht table : HashTable K V) : Call K V → Prop
  | .insert _ _ => table.nnodes = ht.nnodes + 1 ∧ table.noccupied = ht.noccupied + 1
  | .lookup _ => False
  | .remove _ => table.nnodes + 1 = ht.nnodes ∧ table.noccupied = ht.noccupied
  | .removeAll => table.nnodes = 0 ∧ table.noccupied = 0

theorem checked_counters (wellFormed : ht.WellFormed) (checks : ht.checked call = some table) :
    table.size = ht.size ∧ ht.Recounted table call := by
  have room := wellFormed.room
  have large := wellFormed.toCounted.size_le
  have fewer := wellFormed.nnodes_le
  cases call with
  | lookup key => contradiction
  | removeAll =>
      obtain rfl := Option.some.inj checks
      exact ⟨rfl, rfl, rfl⟩
  | insert key val =>
      simp only [checked] at checks
      split at checks
      · contradiction
      · obtain ⟨nodeIndex, probed, checks⟩ := Option.bind_eq_some_iff.mp checks
        obtain ⟨node, found, checks⟩ := Option.bind_eq_some_iff.mp checks
        split at checks
        · obtain rfl := Option.some.inj checks
          exact ⟨rfl, u32_of_lt (by omega), u32_of_lt (by omega)⟩
        · contradiction
  | remove key =>
      simp only [checked] at checks
      split at checks
      · contradiction
      · obtain ⟨shift, sized⟩ := wellFormed.sized
        obtain ⟨slot, node, probed, found, outcome⟩ := lookupNode_spec sized wellFormed.hasRoom key
        simp only [probed, found, Option.bind_eq_bind, Option.bind_some] at checks
        split at checks
        · contradiction
        case isFalse used =>
          obtain rfl := Option.some.inj checks
          have same : ht.Matches key node := outcome.resolve_right fun empty => used empty.1
          have positive : 0 < ht.nnodes := by
            rw [wellFormed.nnodes]
            exact List.countP_pos_iff.mpr ⟨node, List.mem_of_getElem? found, same.live⟩
          have less : u32 (ht.nnodes + (2 ^ 32 - 1)) = ht.nnodes - 1 := by
            simp only [u32]
            omega
          simp only [Recounted, removeNode, less, true_and, and_true]
          exact Nat.sub_add_cancel positive

/-! ## The potential -/

def potential (ht : HashTable K V) : Nat :=
  15 * (2 * ht.noccupied - ht.size) + 4 * (ht.size - 2 * ht.nnodes) + 4 * ht.nnodes

omit [DecidableEq K] in
/-- The counters after `_hash_table_resize`. -/
theorem resize_counters (few : table.nnodes < 2 ^ 30) (resized : table.resize = some next) :
    ∃ shift, (table.setShiftFromSize (u32 (table.nnodes * 2))).map HashTable.size = some (2 ^ shift) ∧
      next.size = 2 ^ shift ∧ next.nnodes = table.nnodes ∧ next.noccupied = table.nnodes ∧
      2 * table.nnodes < 2 ^ shift ∧ (2 ^ shift = 8 ∨ 2 ^ shift ≤ 4 * table.nnodes) := by
  obtain ⟨shift, mod, least, prime, above, below, chosen⟩ :=
    table.setShiftFromSize_spec (table.nnodes * 2) (by omega)
  have doubled : u32 (table.nnodes * 2) = table.nnodes * 2 := u32_of_lt (by omega)
  simp only [resize, doubled, chosen, Option.bind_eq_bind, Option.bind_some] at resized
  obtain ⟨nodes, _, rebuilt⟩ := Option.bind_eq_some_iff.mp resized
  obtain rfl := Option.some.inj rebuilt
  refine ⟨shift, ?_, rfl, rfl, rfl, by omega, below.imp_right fun fits => by omega⟩
  rw [doubled, chosen, Option.map_some]

theorem pow_le_half {shift shift' : Nat} (less : 2 ^ shift' < 2 ^ shift) : 2 * 2 ^ shift' ≤ 2 ^ shift := by
  have exponents : shift' < shift := (Nat.pow_lt_pow_iff_right (by decide)).mp less
  rw [← Nat.pow_succ']
  exact Nat.pow_le_pow_right (by decide) exponents

omit [DecidableEq K] in
/-- The potential pays for every resize. -/
theorem maybeResize_pays {shift : Nat} (size : table.size = 2 ^ shift) (least : 8 ≤ table.size)
    (small : table.size ≤ 2 ^ 30) (used : table.noccupied ≤ table.size) (stored : table.nnodes ≤ table.noccupied)
    (few : table.nnodes < 2 ^ 30) (resized : table.maybeResize = some next) :
    resizeWork table + next.potential ≤ table.potential := by
  rw [maybeResize] at resized
  rw [resizeWork]
  split at resized
  case isFalse kept =>
    obtain rfl := Option.some.inj resized
    rw [if_neg kept, Nat.zero_add]
  case isTrue needed =>
    obtain ⟨shift', chosen, sizeNext, nnodes, noccupied, above, below⟩ := resize_counters few resized
    rw [if_pos needed, chosen, Option.getD_some, potential, potential, sizeNext, nnodes, noccupied]
    rcases (needsResize_iff small used stored).mp needed with ⟨sparse, larger⟩ | crowded
    · -- the table shrinks to at most half its size
      have half : 2 * 2 ^ shift' ≤ table.size := by
        rw [size] at sparse larger ⊢
        have eight : 2 ^ HASH_TABLE_MIN_SHIFT = 8 := rfl
        exact pow_le_half (by omega)
      omega
    · omega

omit [DecidableEq K] in
/-- A table that has just been emptied shrinks to the least size. -/
theorem emptied_pays (size : 8 ≤ table.size) (small : table.size ≤ 2 ^ 30) (nnodes : table.nnodes = 0)
    (noccupied : table.noccupied = 0) (resized : table.maybeResize = some next) :
    resizeWork table + next.potential ≤ table.size + 40 := by
  have test := needsResize_iff small (by omega) (by omega)
  rw [maybeResize] at resized
  rw [resizeWork]
  split at resized
  case isFalse kept =>
    obtain rfl := Option.some.inj resized
    have eight : 2 ^ HASH_TABLE_MIN_SHIFT = 8 := rfl
    rw [test] at kept
    rw [if_neg (by rwa [test]), potential]
    omega
  case isTrue needed =>
    obtain ⟨shift, chosen, sizeNext, nnodesNext, noccupiedNext, _, below⟩ := resize_counters (by omega) resized
    rw [if_pos needed, chosen, Option.getD_some, potential]
    omega

theorem step_pays (wellFormed : ht.WellFormed) (few : ht.nnodes < 2 ^ 29) (called : ht.after call = some next) :
    ht.work call + next.potential ≤ ht.potential + credit call := by
  have room := wellFormed.room
  have fewer := wellFormed.nnodes_le
  have large := wellFormed.size_le few
  obtain ⟨shift, sized⟩ := wellFormed.sized
  have least : 8 ≤ ht.size := by
    rw [sized.size]
    exact Nat.pow_le_pow_right (n := 2) (by decide) sized.least
  rw [work]
  cases checks : ht.checked call with
  | none =>
      obtain ⟨size, noccupied, stored, nnodes, credited⟩ := unchecked_counters (by omega) checks called
      rw [Option.map_none, Option.getD_none, potential, potential, size, noccupied]
      omega
  | some table =>
      obtain ⟨size, recounted⟩ := checked_counters wellFormed checks
      rw [after_checked checks] at called
      rw [Option.map_some, Option.getD_some]
      have pays (used : table.noccupied ≤ table.size) (stored : table.nnodes ≤ table.noccupied)
          (few : table.nnodes < 2 ^ 30) : resizeWork table + next.potential ≤ table.potential :=
        maybeResize_pays (size.trans sized.size) (by omega) (by omega) used stored few called
      cases call with
      | lookup key => exact recounted.elim
      | insert key val =>
          obtain ⟨nnodes, noccupied⟩ := recounted
          have paid := pays (by omega) (by omega) (by omega)
          simp only [potential, credit] at paid ⊢
          omega
      | remove key =>
          obtain ⟨nnodes, noccupied⟩ := recounted
          have paid := pays (by omega) (by omega) (by omega)
          simp only [potential, credit] at paid ⊢
          omega
      | removeAll =>
          obtain ⟨nnodes, noccupied⟩ := recounted
          have paid := emptied_pays (by omega) (by omega) nnodes noccupied called
          have dense := wellFormed.dense
          have eight : 2 ^ HASH_TABLE_MIN_SHIFT = 8 := rfl
          simp only [potential, credit] at paid ⊢
          omega

/-- Over any run of calls on a new table, resizing goes through and clears at most 40 slots for
each call, and 32 more: the credit pays for it, 34 slots for each insertion, 4 for each removal
and 40 for each `hash_table_remove_all`. -/
theorem resizing_is_amortized (hashFunc : K → UInt32) (keyEqualFunc : Option (K → K → Bool))
    (keyDestroyFunc valueDestroyFunc : Bool) (calls : List (Call K V)) {fresh : HashTable K V}
    (made : new (some hashFunc) keyEqualFunc keyDestroyFunc valueDestroyFunc = some fresh)
    (few : fresh.staysBelow (2 ^ 29) calls) :
    totalWork after work fresh calls ≤ 32 + (calls.map credit).sum ∧
      totalWork after work fresh calls ≤ 40 * calls.length + 32 := by
  obtain ⟨_, same, wellFormed, _, empty⟩ :=
    new_spec (K := K) (V := V) hashFunc keyEqualFunc keyDestroyFunc valueDestroyFunc
  obtain rfl := Option.some.inj (made.symm.trans same)
  have paid : totalWork after work fresh calls ≤ fresh.potential + (calls.map credit).sum := by
    refine totalWork_le (fun ht calls => ht.WellFormed ∧ ht.staysBelow (2 ^ 29) calls) ?_ ⟨wellFormed, few⟩
    rintro ht call calls ⟨wellFormed, few⟩
    rw [staysBelow, Bool.and_eq_true, decide_eq_true_eq] at few
    obtain ⟨next, outcome, destroyed, stepped, wellFormedNext, _⟩ := step_wellFormed wellFormed few.1 call
    have called : ht.after call = some next := by rw [after, stepped, Option.map_some]
    rw [stepped] at few
    exact ⟨next, called, ⟨wellFormedNext, few.2⟩, step_pays wellFormed (wellFormed.stored_length ▸ few.1) called⟩
  have start : fresh.potential = 32 := by
    obtain rfl := Option.some.inj made
    rfl
  have most : (calls.map credit).sum ≤ (calls.map credit).length • 40 := by
    refine List.sum_le_card_nsmul _ _ fun paid member => ?_
    obtain ⟨call, _, rfl⟩ := List.mem_map.mp member
    cases call <;> simp [credit]
  rw [start] at paid
  rw [List.length_map, smul_eq_mul] at most
  exact ⟨paid, by omega⟩

def eightInsertions : List (Call Nat Nat) := (List.range 8).map fun i => .insert (i + 1) 1

/-- Eight insertions fill a new table, which then grows to 32 slots. -/
theorem resizing_is_amortized_grown :
    ∃ fresh : HashTable Nat Nat, new (some fun key => .ofNat key) none false false = some fresh ∧
      totalWork after work fresh eightInsertions = 40 ∧ 40 ≤ 32 + (eightInsertions.map credit).sum := by
  obtain ⟨fresh, made, few, worked⟩ : ∃ fresh : HashTable Nat Nat,
      new (some fun key => .ofNat key) none false false = some fresh ∧
      fresh.staysBelow (2 ^ 29) eightInsertions ∧ totalWork after work fresh eightInsertions = 40 :=
    ⟨_, rfl, by decide +kernel, by decide +kernel⟩
  have bounded := resizing_is_amortized (K := Nat) (V := Nat) (fun key => .ofNat key) none false false
    eightInsertions made few
  exact ⟨fresh, made, worked, worked ▸ bounded.1⟩

end Oil.Core.HashTable
