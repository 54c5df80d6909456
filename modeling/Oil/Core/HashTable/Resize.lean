import Oil.Core.HashTable.Probes
import Oil.Data.Writes
import Mathlib.Data.Nat.Size

namespace Oil.Core

open Oil.Data

variable {K V : Type}

def NoTombstones (nodes : List (HashNode K V)) : Prop := ∀ node ∈ nodes, node.keyHash ≠ 1

theorem NoTombstones.occupied_eq_live {nodes : List (HashNode K V)} (clean : NoTombstones nodes) :
    nodes.countP HashNode.occupied = nodes.countP HashNode.live := by
  apply List.countP_congr
  intro node member
  have := clean node member
  simp only [HashNode.occupied, HashNode.live, decide_eq_true_eq]
  omega

namespace HashTable

theorem findClosestShift_eq_size {n : Nat} (bound : n < 2 ^ 32) : findClosestShift n = n.size := by
  suffices loop : ∀ rounds i n, n < 2 ^ rounds → findClosestShift.loop rounds i n = i + n.size by
    simpa only [findClosestShift, Nat.zero_add] using loop 32 0 n bound
  intro rounds
  induction rounds with
  | zero =>
      intro i n small
      have : n = 0 := by omega
      subst this
      simp [findClosestShift.loop]
  | succ rounds ih =>
      intro i n small
      by_cases zero : n = 0
      · subst zero
        simp [findClosestShift.loop]
      · have half : n / 2 < 2 ^ rounds := by
          rw [Nat.pow_succ] at small
          omega
        have digits : n.size = (n / 2).size + 1 := by
          conv_lhs => rw [← Nat.bit_bodd_div2 n]
          rw [Nat.size_bit (by rwa [Nat.bit_bodd_div2]), Nat.div2_val]
        rw [findClosestShift.loop, if_neg zero, ih (i + 1) (n / 2) half, digits]
        omega

variable {ht : HashTable K V}

/-- What `_hash_table_set_shift_from_size` chooses: a power of two above `size`, not
more than twice `size` unless it is the least one. -/
theorem setShiftFromSize_spec (ht : HashTable K V) (size : Nat) (bound : size < 2 ^ 31) :
    ∃ shift mod, HASH_TABLE_MIN_SHIFT ≤ shift ∧ primeMod[shift]? = some mod ∧
      size < 2 ^ shift ∧ (2 ^ shift = 8 ∨ 2 ^ shift ≤ 2 * size) ∧
      ht.setShiftFromSize size =
        some { ht with size := 2 ^ shift, mod := mod, mask := 2 ^ shift - 1 } := by
  have digits := findClosestShift_eq_size (n := size) (by omega)
  have within : size.size ≤ 31 := Nat.size_le.mpr bound
  have above := Nat.lt_size_self size
  have entry : ∀ shift, shift ≤ 31 → ∃ mod, primeMod[shift]? = some mod := fun shift small =>
    ⟨_, List.getElem?_eq_getElem (by simp only [primeMod, List.length_cons, List.length_nil]; omega)⟩
  by_cases small : size.size < HASH_TABLE_MIN_SHIFT
  · obtain ⟨mod, prime⟩ := entry HASH_TABLE_MIN_SHIFT (by decide)
    have more : 2 ^ size.size ≤ 2 ^ HASH_TABLE_MIN_SHIFT :=
      Nat.pow_le_pow_right (by decide) (Nat.le_of_lt small)
    refine ⟨HASH_TABLE_MIN_SHIFT, mod, Nat.le_refl _, prime, by omega, .inl rfl, ?_⟩
    simp only [setShiftFromSize, setShift, digits, small, ↓reduceIte, prime, Option.map_some]
  · obtain ⟨mod, prime⟩ := entry size.size within
    refine ⟨size.size, mod, Nat.le_of_not_lt small, prime, above, .inr ?_, ?_⟩
    · obtain ⟨less, split⟩ : ∃ less, size.size = less + 1 := ⟨size.size - 1, by
        simp only [HASH_TABLE_MIN_SHIFT] at small
        omega⟩
      have half : 2 ^ less ≤ size := Nat.lt_size.mp (by omega)
      rw [split, Nat.pow_succ]
      omega
    · simp only [setShiftFromSize, setShift, digits, small, ↓reduceIte, prime, Option.map_some]

/-- An inner loop of `_hash_table_resize` ends within `size` probes, at an empty slot
that probing for the moved hash reaches. -/
theorem rehashSlot_spec {newNodes : List (HashNode K V)} {shift : Nat}
    (sized : { ht with nodes := newNodes }.Sized shift) (room : HasRoom newNodes) (hash : Nat) :
    ∃ slot node, probeLoop ht.mask (rehashVisit newNodes) ht.size (hash % ht.mod) 0 () = some slot ∧
      newNodes[slot]? = some node ∧ node.keyHash = 0 ∧
      ReachedFrom newNodes ht.mask (hash % ht.mod) slot := by
  obtain ⟨last, within, usedBefore⟩ : ∃ last < ht.size, ∀ k ≤ last, ∀ node,
      newNodes[probePath ht.mask (hash % ht.mod) k]? = some node → node.keyHash ≠ 0 → k < last :=
    sized.used_before_empty room hash
  have path_node (k : Nat) : ∃ node, newNodes[probePath ht.mask (hash % ht.mod) k]? = some node :=
    sized.path_node hash k
  obtain ⟨k, _, _, slot, before, visited, result⟩ := probeLoop_ends ht.mask
    (hash % ht.mod) (rehashVisit newNodes) ()
    (fun k _ => ∀ j < k, OccupiedAt newNodes (probePath ht.mask (hash % ht.mod) j))
    (fun j less => absurd less (Nat.not_lt_zero j))
    (by
      intro k s bound before
      obtain ⟨node, found⟩ := path_node k
      refine ⟨_, by rw [rehashVisit, found, Option.map_some], fun next moved => ?_⟩
      split at moved
      case isTrue => contradiction
      case isFalse used =>
        exact ⟨usedBefore k bound node found used, Nat.forall_lt_succ_right.mpr ⟨before, node, found, used⟩⟩)
    within
  obtain ⟨node, found⟩ := path_node k
  simp only [rehashVisit, found, Option.map_some, Option.some.injEq] at visited
  split at visited
  case isTrue empty =>
    cases visited
    exact ⟨_, node, result, found, empty, k, rfl, before⟩
  case isFalse => contradiction

/-- The outer loop of `_hash_table_resize` moves every stored pair and nothing else, and
rebuilds the probe chains as it goes. -/
theorem rehash_spec (ht : HashTable K V) {shift : Nat} (oldNodes newNodes : List (HashNode K V))
    (sized : { ht with nodes := newNodes }.Sized shift) (chained : Chained newNodes ht.mask ht.mod)
    (clean : NoTombstones newNodes)
    (room : newNodes.countP HashNode.live + oldNodes.countP HashNode.live < ht.size) :
    ∃ final, oldNodes.foldlM ht.rehashNode newNodes = some final ∧
      { ht with nodes := final }.Sized shift ∧ Chained final ht.mask ht.mod ∧ NoTombstones final ∧
      (final.filter HashNode.live).Perm
        (oldNodes.filter HashNode.live ++ newNodes.filter HashNode.live) := by
  induction oldNodes generalizing newNodes with
  | nil => exact ⟨newNodes, rfl, sized, chained, clean, .refl _⟩
  | cons node rest ih =>
      by_cases live : node.live = true
      · have free : HasRoom newNodes := hasRoom_of_countP (by
          have length : newNodes.length = ht.size := sized.length
          rw [clean.occupied_eq_live, length]
          omega)
        obtain ⟨slot, empty, probed, found, unused, reached⟩ :=
          rehashSlot_spec sized free node.keyHash
        have used : 1 < node.keyHash := by simpa [HashNode.live] using live
        have notLive : empty.live = false := by simp [HashNode.live, unused]
        have added := filter_set_add node found notLive live
        have sizedNext : { ht with nodes := newNodes.set slot node }.Sized shift :=
          { sized with length := by simpa using sized.length }
        have chainedNext : Chained (newNodes.set slot node) ht.mask ht.mod :=
          chained.set (by omega) (fun _ => reached)
        have cleanNext : NoTombstones (newNodes.set slot node) := by
          intro other member
          rcases List.mem_or_eq_of_mem_set member with kept | rfl
          · exact clean other kept
          · omega
        have counted := added.length_eq
        rw [List.length_cons, ← List.countP_eq_length_filter, ← List.countP_eq_length_filter] at counted
        obtain ⟨final, moved, sizedFinal, chainedFinal, cleanFinal, perm⟩ :=
          ih (newNodes.set slot node) sizedNext chainedNext cleanNext (by
            rw [List.countP_cons_of_pos live] at room
            omega)
        refine ⟨final, ?_, sizedFinal, chainedFinal, cleanFinal, ?_⟩
        · have notSkipped : ¬ node.keyHash ≤ 1 := by omega
          simp only [List.foldlM_cons, rehashNode, if_neg notSkipped, probed, Option.map_some]
          exact moved
        · rw [List.filter_cons_of_pos live, List.cons_append]
          exact perm.trans ((added.append_left _).trans List.perm_middle)
      · have skipped : node.keyHash ≤ 1 := by
          simp only [HashNode.live, decide_eq_true_eq] at live
          omega
        rw [List.countP_cons_of_neg live] at room
        obtain ⟨final, moved, rest⟩ := ih newNodes sized chained clean room
        refine ⟨final, ?_, by simpa only [List.filter_cons_of_neg live] using rest⟩
        simp only [List.foldlM_cons, rehashNode, if_pos skipped]
        exact moved

end HashTable

end Oil.Core
