import Oil.Core.HashTable.Resize

namespace Oil.Core

open Oil.Data

variable {K V : Type}

namespace HashTable

variable {ht : HashTable K V}

def stored (ht : HashTable K V) : List (HashNode K V) := ht.nodes.filter HashNode.live

def funcs (ht : HashTable K V) : (K → UInt32) × Option (K → K → Bool) × Bool × Bool :=
  (ht.hashFunc, ht.keyEqualFunc, ht.keyDestroyFunc, ht.valueDestroyFunc)

/-- What holds of a table in the middle of a call, before `_hash_table_maybe_resize`. -/
structure Counted (ht : HashTable K V) : Prop where
  sized : ∃ shift, ht.Sized shift
  chained : Chained ht.nodes ht.mask ht.mod
  nnodes : ht.nnodes = ht.nodes.countP HashNode.live
  noccupied : ht.noccupied = ht.nodes.countP HashNode.occupied

/-- What holds of a table between calls: an empty slot is left, and the table is
not much larger than what it stores. -/
structure WellFormed (ht : HashTable K V) : Prop extends ht.Counted where
  room : ht.noccupied < ht.size
  dense : ht.size = 2 ^ HASH_TABLE_MIN_SHIFT ∨ ht.size ≤ 4 * ht.nnodes

namespace Counted

theorem noccupied_le (counted : ht.Counted) : ht.noccupied ≤ ht.size := by
  obtain ⟨shift, sized⟩ := counted.sized
  rw [counted.noccupied, ← sized.length]
  exact List.countP_le_length

theorem nnodes_le (counted : ht.Counted) : ht.nnodes ≤ ht.noccupied := by
  rw [counted.nnodes, counted.noccupied]
  apply List.countP_mono_left
  intro node _ live
  simp only [HashNode.live, HashNode.occupied, decide_eq_true_eq] at *
  omega

end Counted

namespace WellFormed

theorem hasRoom (wellFormed : ht.WellFormed) : HasRoom ht.nodes := by
  obtain ⟨shift, sized⟩ := wellFormed.sized
  apply hasRoom_of_countP
  rw [← wellFormed.noccupied, sized.length]
  exact wellFormed.room

theorem size_le (wellFormed : ht.WellFormed) (few : ht.nnodes < 2 ^ 29) : ht.size ≤ 2 ^ 30 := by
  obtain ⟨shift, sized⟩ := wellFormed.sized
  rcases wellFormed.dense with least | dense
  · rw [least]
    decide
  · rw [sized.size] at dense ⊢
    have small : 2 ^ shift < 2 ^ 31 := by omega
    exact Nat.pow_le_pow_right (by decide)
      (Nat.le_of_lt_succ ((Nat.pow_lt_pow_iff_right (by decide)).mp small))

end WellFormed

/-- What `_hash_table_maybe_resize` tests, free of machine arithmetic. -/
theorem needsResize_iff (small : ht.size ≤ 2 ^ 30) (used : ht.noccupied ≤ ht.size)
    (stored : ht.nnodes ≤ ht.noccupied) :
    ht.needsResize ↔ (4 * ht.nnodes < ht.size ∧ 2 ^ HASH_TABLE_MIN_SHIFT < ht.size) ∨
      ht.size ≤ ht.noccupied + ht.noccupied / 16 := by
  have signed : toInt ht.size = ht.size := if_pos (by omega)
  have least : toInt (2 ^ HASH_TABLE_MIN_SHIFT) = 8 := by decide
  have sum : u32 (ht.noccupied + ht.noccupied / 16) = ht.noccupied + ht.noccupied / 16 :=
    u32_of_lt (by omega)
  have order : ((8 : Int) < (ht.size : Int)) ↔ 2 ^ HASH_TABLE_MIN_SHIFT < ht.size := by
    simp only [HASH_TABLE_MIN_SHIFT]
    omega
  simp only [needsResize, signed, least, sum, Bool.or_eq_true, Bool.and_eq_true, decide_eq_true_eq, order]
  by_cases fits : ht.nnodes * 4 < 2 ^ 32
  · rw [u32_of_lt fits, Nat.mul_comm]
  · -- the product wraps only when every slot is taken, and then the table grows anyway
    omega

variable [Pointer K] [Pointer V]

/-- `_hash_table_resize` keeps the stored pairs and leaves a table without tombstones,
less than half full. -/
theorem resize_halves (counted : ht.nnodes = ht.nodes.countP HashNode.live)
    (few : ht.nnodes < 2 ^ 30) :
    ∃ next, ht.resize = some next ∧ next.WellFormed ∧ next.funcs = ht.funcs ∧
      next.stored.Perm ht.stored ∧ 2 * next.noccupied < next.size := by
  obtain ⟨shift, mod, least, prime, above, below, chosen⟩ :=
    ht.setShiftFromSize_spec (ht.nnodes * 2) (by omega)
  let resized : HashTable K V := { ht with size := 2 ^ shift, mod := mod, mask := 2 ^ shift - 1 }
  let blank : List (HashNode K V) := List.replicate resized.size HashNode.empty
  have blankLive : blank.filter HashNode.live = [] := by
    simp [blank, HashNode.live, HashNode.empty]
  have blankCount : blank.countP HashNode.live = 0 := by
    rw [List.countP_eq_length_filter, blankLive, List.length_nil]
  obtain ⟨final, moved, sized, chained, clean, perm⟩ := rehash_spec resized ht.nodes blank
    ⟨least, rfl, rfl, prime, by simp [blank]⟩ (Chained.replicate _ _ _)
    (by
      intro node member
      rw [List.eq_of_mem_replicate member]
      simp [HashNode.empty])
    (by
      rw [blankCount, ← counted]
      show 0 + ht.nnodes < 2 ^ shift
      omega)
  rw [blankLive, List.append_nil] at perm
  have live : final.countP HashNode.live = ht.nnodes := by
    rw [counted, List.countP_eq_length_filter, List.countP_eq_length_filter, perm.length_eq]
  refine ⟨{ resized with nodes := final, noccupied := ht.nnodes }, ?_, ?_, rfl, perm, ?_⟩
  · have doubled : u32 (ht.nnodes * 2) = ht.nnodes * 2 := u32_of_lt (by omega)
    simp only [resize, doubled, chosen, Option.bind_eq_bind, Option.bind_some]
    rw [show ht.nodes.foldlM _ _ = some final from moved]
    rfl
  · refine ⟨⟨⟨shift, { sized with }⟩, chained, live.symm, ?_⟩, ?_, ?_⟩
    · exact (clean.occupied_eq_live.trans live).symm
    · show ht.nnodes < 2 ^ shift
      omega
    · rcases below with least | fits
      · exact .inl least
      · refine .inr ?_
        show 2 ^ shift ≤ 4 * ht.nnodes
        omega
  · show 2 * ht.nnodes < 2 ^ shift
    omega

theorem resize_spec (counted : ht.nnodes = ht.nodes.countP HashNode.live)
    (few : ht.nnodes < 2 ^ 30) :
    ∃ next, ht.resize = some next ∧ next.WellFormed ∧ next.funcs = ht.funcs ∧
      next.stored.Perm ht.stored := by
  obtain ⟨next, resized, wellFormed, same, perm, _⟩ := resize_halves counted few
  exact ⟨next, resized, wellFormed, same, perm⟩

theorem maybeResize_spec (counted : ht.Counted) (few : ht.nnodes < 2 ^ 30) (small : ht.size ≤ 2 ^ 30) :
    ∃ next, ht.maybeResize = some next ∧ next.WellFormed ∧ next.funcs = ht.funcs ∧
      next.stored.Perm ht.stored := by
  by_cases needed : ht.needsResize = true
  · rw [maybeResize, if_pos needed]
    exact resize_spec counted.nnodes few
  · refine ⟨ht, by rw [maybeResize, if_neg needed], ⟨counted, ?_, ?_⟩, rfl, .refl _⟩
    all_goals
      rw [needsResize_iff small counted.noccupied_le counted.nnodes_le] at needed
      obtain ⟨shift, sized⟩ := counted.sized
      have least : 2 ^ HASH_TABLE_MIN_SHIFT ≤ ht.size := by
        rw [sized.size]
        exact Nat.pow_le_pow_right (by decide) sized.least
      omega

omit [Pointer K] [Pointer V] in
/-- Writing an occupied node into a counted table: the array part of what `insert` and
`remove` do before the counters are checked. -/
theorem Counted.write {slot : Nat} {old : HashNode K V} (counted : ht.Counted)
    (node : HashNode K V) (nnodes noccupied : Nat) (found : ht.nodes[slot]? = some old) (used : node.keyHash ≠ 0)
    (reached : node.live → ReachedFrom ht.nodes ht.mask (node.keyHash % ht.mod) slot)
    (live : nnodes + (if old.live then 1 else 0) = ht.nnodes + (if node.live then 1 else 0))
    (occupied : noccupied + (if old.occupied then 1 else 0) = ht.noccupied + 1) :
    { ht with nodes := ht.nodes.set slot node, nnodes, noccupied }.Counted where
  sized := by
    obtain ⟨shift, sized⟩ := counted.sized
    exact ⟨shift, { sized with length := by simpa using sized.length }⟩
  chained := counted.chained.set used reached
  nnodes := by
    have written := countP_set_add found HashNode.live node
    rw [counted.nnodes] at live
    show nnodes = (ht.nodes.set slot node).countP HashNode.live
    omega
  noccupied := by
    have written := countP_set_add found HashNode.occupied node
    have new : node.occupied = true := by
      simp only [HashNode.occupied, decide_eq_true_eq]
      omega
    rw [counted.noccupied] at occupied
    rw [new] at written
    show noccupied = (ht.nodes.set slot node).countP HashNode.occupied
    simp only [↓reduceIte] at written
    omega

variable [DecidableEq K] {key : K}

omit [Pointer K] [Pointer V] in
theorem Matches.reached {slot : Nat} {node : HashNode K V} (chained : Chained ht.nodes ht.mask ht.mod)
    (found : ht.nodes[slot]? = some node) (same : ht.Matches key node) :
    ReachedFrom ht.nodes ht.mask (ht.hashValue key % ht.mod) slot := by
  have := chained slot node found same.live
  rwa [same.1] at this

omit [Pointer K] [Pointer V] [DecidableEq K] in
theorem occupied_of_live {node : HashNode K V} (live : node.live = true) : node.occupied = true := by
  simp only [HashNode.live, HashNode.occupied, decide_eq_true_eq] at live ⊢
  omega

omit [Pointer K] [Pointer V] [DecidableEq K] in
theorem Counted.replaceValue {slot : Nat} {node : HashNode K V} (counted : ht.Counted)
    (found : ht.nodes[slot]? = some node) (live : node.live = true) (val : V) :
    { ht with nodes := ht.nodes.set slot { node with value := val } }.Counted := by
  have occupied := occupied_of_live live
  have used : node.keyHash ≠ 0 := by
    simp only [HashNode.occupied, decide_eq_true_eq] at occupied
    omega
  exact counted.write { node with value := val } ht.nnodes ht.noccupied found used
    (fun _ => counted.chained slot node found live)
    (by rw [show HashNode.live { node with value := val } = node.live from rfl])
    (by rw [occupied, if_pos rfl])

omit [Pointer K] [Pointer V] [DecidableEq K] in
theorem WellFormed.replaceValue {slot : Nat} {node : HashNode K V} (wellFormed : ht.WellFormed)
    (found : ht.nodes[slot]? = some node) (live : node.live = true) (val : V) :
    { ht with nodes := ht.nodes.set slot { node with value := val } }.WellFormed :=
  ⟨wellFormed.toCounted.replaceValue found live val, wellFormed.room, wellFormed.dense⟩

omit [Pointer K] [Pointer V] [DecidableEq K] in
/-- Storing a new pair in an empty node or over a tombstone. -/
theorem Counted.store {slot : Nat} {node : HashNode K V} (counted : ht.Counted)
    (found : ht.nodes[slot]? = some node) (notLive : node.live = false)
    (reached : ReachedFrom ht.nodes ht.mask (ht.hashValue key % ht.mod) slot) (val : V) (noccupied : Nat)
    (occupied : noccupied + (if node.occupied then 1 else 0) = ht.noccupied + 1) :
    { ht with
      nodes := ht.nodes.set slot ⟨key, val, ht.hashValue key⟩
      nnodes := ht.nnodes + 1
      noccupied }.Counted := by
  have hash := ht.hashValue_gt key
  have live : HashNode.live (⟨key, val, ht.hashValue key⟩ : HashNode K V) = true := decide_eq_true hash
  exact counted.write ⟨key, val, ht.hashValue key⟩ (ht.nnodes + 1) noccupied found
    (Nat.ne_of_gt (Nat.lt_of_succ_lt hash)) (fun _ => reached) (by simp [notLive, live]) occupied

omit [Pointer K] [Pointer V] [DecidableEq K] in
theorem Counted.hasRoom (counted : ht.Counted) (room : ht.noccupied < ht.size) : HasRoom ht.nodes := by
  obtain ⟨shift, sized⟩ := counted.sized
  apply hasRoom_of_countP
  rw [← counted.noccupied, sized.length]
  exact room

omit [Pointer K] [Pointer V] [DecidableEq K] in
theorem Counted.size_le (counted : ht.Counted) : ht.size ≤ 2 ^ 31 := by
  obtain ⟨shift, sized⟩ := counted.sized
  rw [sized.size]
  exact Nat.pow_le_pow_right (by decide) (Nat.le_of_lt_succ (primeMod_bounds sized.mod).1)

/-- Everything `hash_table_insert` can do before the counters are checked. -/
theorem insert_cases (val : V) (counted : ht.Counted) (room : ht.noccupied < ht.size) (nonNull : key ≠ null) :
    (∃ slot node rest, ht.nodes[slot]? = some node ∧ ht.Matches key node ∧ ht.stored.Perm (node :: rest) ∧
      (stored { ht with nodes := ht.nodes.set slot { node with value := val } }).Perm
        ({ node with value := val } :: rest) ∧
      ht.insert key val = some ({ ht with nodes := ht.nodes.set slot { node with value := val } },
        ht.destroyKey key ++ ht.destroyValue node.value)) ∨
    (ht.Misses key ∧ ∃ grown : HashTable K V, grown.Counted ∧ grown.funcs = ht.funcs ∧
      grown.size = ht.size ∧ grown.nnodes = ht.nnodes + 1 ∧
      grown.stored.Perm (⟨key, val, ht.hashValue key⟩ :: ht.stored) ∧
      (grown.noccupied = ht.noccupied ∧ ht.insert key val = some (grown, []) ∨
        grown.noccupied = ht.noccupied + 1 ∧
          ht.insert key val = grown.maybeResize.map fun next => (next, []))) := by
  obtain ⟨shift, sized⟩ := counted.sized
  obtain ⟨slot, node, probed, found, outcome⟩ :=
    lookupNodeForInsertion_spec sized (counted.hasRoom room) key
  have small := counted.size_le
  have fewer := counted.nnodes_le
  simp only [insert, if_neg nonNull, probed, found, Option.bind_eq_bind, Option.bind_some]
  rcases outcome with same | ⟨notLive, misses, reached⟩
  · -- the key is there already
    left
    have live : node.live = true := same.live
    obtain ⟨rest, before, after⟩ := filter_set_replace { node with value := val } found live live
    rw [if_pos live]
    exact ⟨slot, node, rest, found, same, before, after, rfl⟩
  · -- the key is new: `slot` is empty or a tombstone
    right
    let added : HashNode K V := ⟨key, val, ht.hashValue key⟩
    have perm := filter_set_add added found notLive (decide_eq_true (ht.hashValue_gt key))
    have sum : u32 (ht.nnodes + 1) = ht.nnodes + 1 := u32_of_lt (by omega)
    rw [if_neg (by simp [notLive])]
    refine ⟨misses, ?_⟩
    by_cases empty : node.keyHash = 0
    · have sumOccupied : u32 (ht.noccupied + 1) = ht.noccupied + 1 := u32_of_lt (by omega)
      have unused : node.occupied = false := by simp [HashNode.occupied, empty]
      refine ⟨_, counted.store found notLive reached val (ht.noccupied + 1) (by simp [unused]), rfl, rfl, rfl,
        perm, .inr ⟨rfl, ?_⟩⟩
      simp only [empty, ↓reduceIte, sum, sumOccupied]
      rw [Option.map_eq_bind]
      rfl
    · have buried : node.occupied = true := by
        simp only [HashNode.occupied, decide_eq_true_eq]
        omega
      refine ⟨_, counted.store found notLive reached val ht.noccupied (by simp [buried]), rfl, rfl, rfl,
        perm, .inl ⟨rfl, ?_⟩⟩
      simp only [if_neg empty, sum]
      rfl

/-- `hash_table_insert` either replaces the value of one matching pair, destroying the
key it was given and the old value, or stores a new pair after meeting no match. -/
theorem insert_spec (val : V) (wellFormed : ht.WellFormed) (few : ht.nnodes < 2 ^ 29) (nonNull : key ≠ null) :
    ∃ next destroyed, ht.insert key val = some (next, destroyed) ∧ next.WellFormed ∧
      next.funcs = ht.funcs ∧
      ((∃ node rest, ht.Matches key node ∧ ht.stored.Perm (node :: rest) ∧
          next.stored.Perm ({ node with value := val } :: rest) ∧
          destroyed = ht.destroyKey key ++ ht.destroyValue node.value) ∨
        (ht.Misses key ∧ next.stored.Perm (⟨key, val, ht.hashValue key⟩ :: ht.stored) ∧
          destroyed = [])) := by
  have small := wellFormed.size_le few
  rcases insert_cases val wellFormed.toCounted wellFormed.room nonNull with
    ⟨slot, node, rest, found, same, before, after, inserted⟩ |
      ⟨misses, grown, counted, funcs, size, nnodes, perm, grows⟩
  · exact ⟨_, _, inserted, wellFormed.replaceValue found same.live val, rfl,
      .inl ⟨node, rest, same, before, after, rfl⟩⟩
  · rcases grows with ⟨noccupied, inserted⟩ | ⟨noccupied, inserted⟩
    · have room := wellFormed.room
      refine ⟨grown, [], inserted, ⟨counted, by omega, ?_⟩, funcs, .inr ⟨misses, perm, rfl⟩⟩
      rcases wellFormed.dense with least | dense
      · exact .inl (size.trans least)
      · exact .inr (by omega)
    · obtain ⟨next, resized, wellFormedNext, same, stored⟩ :=
        maybeResize_spec counted (by omega) (size ▸ small)
      refine ⟨next, [], ?_, wellFormedNext, same.trans funcs, .inr ⟨misses, stored.trans perm, rfl⟩⟩
      rw [inserted, resized]
      rfl

theorem lookup_cases (counted : ht.Counted) (room : ht.noccupied < ht.size) (nonNull : key ≠ null) :
    (∃ node ∈ ht.stored, ht.Matches key node ∧ ht.lookup key = some node.value) ∨
      (ht.Misses key ∧ ht.lookup key = some null) := by
  obtain ⟨shift, sized⟩ := counted.sized
  obtain ⟨slot, node, probed, found, outcome⟩ := lookupNode_spec sized (counted.hasRoom room) key
  have returned : ht.lookup key = some (if node.keyHash ≠ 0 then node.value else null) := by
    simp only [lookup, if_neg nonNull, probed, found, Option.bind_eq_bind, Option.bind_some]
    rfl
  rcases outcome with same | ⟨empty, misses⟩
  · have live : 1 < node.keyHash := by simpa [HashNode.live] using same.live
    rw [if_pos (by omega)] at returned
    exact .inl ⟨node, List.mem_filter.mpr ⟨List.mem_of_getElem? found, same.live⟩, same, returned⟩
  · rw [if_neg (by omega)] at returned
    exact .inr ⟨misses, returned⟩

theorem lookup_spec (wellFormed : ht.WellFormed) (nonNull : key ≠ null) :
    (∃ node ∈ ht.stored, ht.Matches key node ∧ ht.lookup key = some node.value) ∨
      (ht.Misses key ∧ ht.lookup key = some null) :=
  lookup_cases wellFormed.toCounted wellFormed.room nonNull

/-- Everything `hash_table_remove` can do before the counters are checked. -/
theorem remove_cases (counted : ht.Counted) (room : ht.noccupied < ht.size) (nonNull : key ≠ null) :
    (∃ node rest, ∃ shrunk : HashTable K V, ht.Matches key node ∧ ht.stored.Perm (node :: rest) ∧
      shrunk.Counted ∧ shrunk.funcs = ht.funcs ∧ shrunk.size = ht.size ∧ shrunk.nnodes + 1 = ht.nnodes ∧
      shrunk.stored.Perm rest ∧
      ht.remove key = shrunk.maybeResize.map fun next =>
        (1, next, ht.destroyKey node.key ++ ht.destroyValue node.value)) ∨
    (ht.Misses key ∧ ht.remove key = some (0, ht, [])) := by
  obtain ⟨shift, sized⟩ := counted.sized
  obtain ⟨slot, node, probed, found, outcome⟩ := lookupNode_spec sized (counted.hasRoom room) key
  simp only [remove, if_neg nonNull, probed, found, Option.bind_eq_bind, Option.bind_some]
  rcases outcome with same | ⟨empty, misses⟩
  · left
    let tombstone : HashNode K V := ⟨null, null, 1⟩
    have live : node.live = true := same.live
    have used : 1 < node.keyHash := by simpa [HashNode.live] using live
    have perm := filter_set_drop tombstone found live rfl
    have positive : 0 < ht.nnodes := by
      rw [counted.nnodes]
      exact List.countP_pos_iff.mpr ⟨node, List.mem_of_getElem? found, live⟩
    have small := counted.size_le
    have fewer := counted.nnodes_le
    have less : u32 (ht.nnodes + (2 ^ 32 - 1)) = ht.nnodes - 1 := by
      simp only [u32]
      omega
    have occupied := occupied_of_live live
    have shrunk := counted.write tombstone (ht.nnodes - 1) ht.noccupied found Nat.one_ne_zero
      (fun no => absurd no (by simp [tombstone, HashNode.live]))
      (by
        simp only [live, show tombstone.live = false from rfl, ↓reduceIte, Bool.false_eq_true]
        omega)
      (by rw [occupied, if_pos rfl])
    refine ⟨node, _, _, same, perm, shrunk, rfl, rfl, Nat.sub_add_cancel positive, .refl _, ?_⟩
    rw [if_neg (by omega)]
    simp only [removeNode, less]
    rw [Option.map_eq_bind]
    rfl
  · right
    refine ⟨misses, ?_⟩
    rw [if_pos empty]
    rfl

/-- `hash_table_remove` drops one matching pair and destroys its key and value, or
changes nothing after meeting no match. -/
theorem remove_spec (wellFormed : ht.WellFormed) (few : ht.nnodes < 2 ^ 29) (nonNull : key ≠ null) :
    ∃ count next destroyed, ht.remove key = some (count, next, destroyed) ∧ next.WellFormed ∧
      next.funcs = ht.funcs ∧
      ((∃ node rest, ht.Matches key node ∧ count = 1 ∧ ht.stored.Perm (node :: rest) ∧
          next.stored.Perm rest ∧ destroyed = ht.destroyKey node.key ++ ht.destroyValue node.value) ∨
        (ht.Misses key ∧ count = 0 ∧ next = ht ∧ destroyed = [])) := by
  rcases remove_cases wellFormed.toCounted wellFormed.room nonNull with
    ⟨node, rest, shrunk, same, perm, counted, funcs, size, nnodes, left, removed⟩ | ⟨misses, removed⟩
  · obtain ⟨next, resized, wellFormedNext, sameFuncs, stored⟩ :=
      maybeResize_spec counted (by omega) (size ▸ wellFormed.size_le few)
    refine ⟨1, next, _, ?_, wellFormedNext, sameFuncs.trans funcs,
      .inl ⟨node, rest, same, rfl, perm, stored.trans left, rfl⟩⟩
    rw [removed, resized]
    rfl
  · exact ⟨0, ht, [], removed, wellFormed, rfl, .inr ⟨misses, rfl, rfl, rfl⟩⟩

omit [DecidableEq K] in
theorem removeAllNodes_spec (counted : ht.Counted) :
    ht.removeAllNodes.1.Counted ∧ ht.removeAllNodes.1.stored = [] ∧
      ht.removeAll = ht.removeAllNodes.1.maybeResize.map fun next => (next, ht.removeAllNodes.2) := by
  obtain ⟨shift, sized⟩ := counted.sized
  have none (p : HashNode K V → Bool) (not : p HashNode.empty = false) :
      (List.replicate ht.size HashNode.empty).countP p = 0 := by
    simp [List.countP_replicate, not]
  refine ⟨{ sized := ⟨shift, { sized with length := List.length_replicate }⟩
            chained := Chained.replicate _ _ _
            nnodes := (none _ rfl).symm
            noccupied := (none _ rfl).symm }, ?_, ?_⟩
  · simp [HashTable.stored, removeAllNodes, HashNode.live, HashNode.empty]
  · rw [Option.map_eq_bind]
    rfl

omit [DecidableEq K] in
theorem removeAll_spec (wellFormed : ht.WellFormed) (few : ht.nnodes < 2 ^ 29) :
    ∃ next, ht.removeAll = some (next, ht.removeAllNodes.2) ∧ next.WellFormed ∧
      next.funcs = ht.funcs ∧ next.stored = [] := by
  obtain ⟨counted, emptied, cleared⟩ := removeAllNodes_spec wellFormed.toCounted
  obtain ⟨next, resized, wellFormedNext, sameFuncs, stored⟩ :=
    maybeResize_spec counted (show 0 < 2 ^ 30 by decide) (wellFormed.size_le few)
  refine ⟨next, ?_, wellFormedNext, sameFuncs, List.Perm.eq_nil (emptied ▸ stored)⟩
  rw [cleared, resized]
  rfl

end HashTable

end Oil.Core
