import Oil.Core.HashTable.Model

namespace Oil.Core

open Oil.Data

variable {K V : Type}

/-- The slot holds a stored pair or a tombstone. -/
def OccupiedAt (nodes : List (HashNode K V)) (slot : Nat) : Prop :=
  ∃ node, nodes[slot]? = some node ∧ node.keyHash ≠ 0

/-- Probing from `start` passes only occupied slots before it comes to `slot`. -/
def ReachedFrom (nodes : List (HashNode K V)) (mask start slot : Nat) : Prop :=
  ∃ k, probePath mask start k = slot ∧ ∀ j < k, OccupiedAt nodes (probePath mask start j)

/-- The probe-chain invariant: no empty slot precedes a stored pair on its own path. -/
def Chained (nodes : List (HashNode K V)) (mask mod : Nat) : Prop :=
  ∀ slot node, nodes[slot]? = some node → node.live →
    ReachedFrom nodes mask (node.keyHash % mod) slot

theorem OccupiedAt.set {nodes : List (HashNode K V)} {slot other : Nat} {node : HashNode K V}
    (occupied : node.keyHash ≠ 0) (held : OccupiedAt nodes other) :
    OccupiedAt (nodes.set slot node) other := by
  obtain ⟨old, found, used⟩ := held
  by_cases same : slot = other
  · subst same
    have bound := (List.getElem?_eq_some_iff.mp found).1
    exact ⟨node, List.getElem?_set_self bound, occupied⟩
  · exact ⟨old, by rw [List.getElem?_set_ne same, found], used⟩

theorem ReachedFrom.set {nodes : List (HashNode K V)} {mask start slot other : Nat}
    {node : HashNode K V} (occupied : node.keyHash ≠ 0)
    (reached : ReachedFrom nodes mask start other) :
    ReachedFrom (nodes.set slot node) mask start other := by
  obtain ⟨k, hit, before⟩ := reached
  exact ⟨k, hit, fun j less => (before j less).set occupied⟩

theorem Chained.set {nodes : List (HashNode K V)} {mask mod slot : Nat} {node : HashNode K V}
    (chained : Chained nodes mask mod) (occupied : node.keyHash ≠ 0)
    (reached : node.live → ReachedFrom nodes mask (node.keyHash % mod) slot) :
    Chained (nodes.set slot node) mask mod := by
  intro other held found live
  by_cases same : slot = other
  · subst same
    have bound := (List.getElem?_eq_some_iff.mp found).1
    rw [List.getElem?_set_self (by simpa using bound), Option.some.injEq] at found
    subst found
    exact (reached live).set occupied
  · rw [List.getElem?_set_ne same] at found
    exact (chained other held found live).set occupied

theorem Chained.replicate [Pointer K] [Pointer V] (count mask mod : Nat) :
    Chained (List.replicate count (HashNode.empty : HashNode K V)) mask mod := by
  intro slot node found live
  have := List.eq_of_mem_replicate (List.mem_of_getElem? found)
  subst this
  simp [HashNode.live, HashNode.empty] at live

theorem primeMod_bounds {shift mod : Nat} (entry : primeMod[shift]? = some mod) :
    shift < 32 ∧ 0 < mod ∧ mod ≤ 2 ^ shift := by
  have all : ∀ index : Fin 32, ∀ value ∈ primeMod[index.val]?,
      0 < value ∧ value ≤ 2 ^ index.val := by decide
  have bound : shift < 32 := (List.getElem?_eq_some_iff.mp entry).1
  exact ⟨bound, all ⟨shift, bound⟩ mod entry⟩

namespace HashTable

variable {ht : HashTable K V} {key : K}

/-- The sizes fixed by `_hash_table_set_shift`, with a node array to match. -/
structure Sized (ht : HashTable K V) (shift : Nat) : Prop where
  least : HASH_TABLE_MIN_SHIFT ≤ shift
  size : ht.size = 2 ^ shift
  mask : ht.mask = 2 ^ shift - 1
  mod : primeMod[shift]? = some ht.mod
  length : ht.nodes.length = ht.size

namespace Sized

variable {shift : Nat}

theorem mask_lt (sized : ht.Sized shift) {slot : Nat} (below : slot ≤ ht.mask) : slot < ht.size := by
  have := Nat.two_pow_pos shift
  rw [sized.mask] at below
  rw [sized.size]
  omega

theorem start_lt (sized : ht.Sized shift) (hash : Nat) : hash % ht.mod < 2 ^ shift :=
  have bounds := primeMod_bounds sized.mod
  Nat.lt_of_lt_of_le (Nat.mod_lt _ bounds.2.1) bounds.2.2

theorem path_lt (sized : ht.Sized shift) (hash k : Nat) :
    probePath ht.mask (hash % ht.mod) k < ht.size := by
  have start := sized.start_lt hash
  apply sized.mask_lt
  apply probePath_lt
  rw [sized.mask]
  omega

theorem path_node (sized : ht.Sized shift) (hash k : Nat) :
    ∃ node, ht.nodes[probePath ht.mask (hash % ht.mod) k]? = some node := by
  have bound := sized.path_lt hash k
  rw [← sized.length] at bound
  exact ⟨_, List.getElem?_eq_getElem bound⟩

theorem path_meets (sized : ht.Sized shift) (hash : Nat) {slot : Nat} (bound : slot < ht.size) :
    ∃ k < ht.size, probePath ht.mask (hash % ht.mod) k = slot := by
  have start := sized.start_lt hash
  rw [sized.size] at bound ⊢
  rw [sized.mask]
  exact probePath_surjective start bound

end Sized

def HasRoom (nodes : List (HashNode K V)) : Prop :=
  ∃ (slot : Nat) (node : HashNode K V), nodes[slot]? = some node ∧ node.keyHash = 0

theorem hasRoom_of_countP {nodes : List (HashNode K V)}
    (less : nodes.countP HashNode.occupied < nodes.length) : HasRoom nodes := by
  by_contra full
  have every : ∀ node ∈ nodes, node.occupied = true := by
    intro node member
    obtain ⟨slot, found⟩ := List.getElem?_of_mem member
    have used : node.keyHash ≠ 0 := fun unused => full ⟨slot, node, found, unused⟩
    simp only [HashNode.occupied, decide_eq_true_eq]
    omega
  have := List.countP_eq_length.mpr every
  omega

/-- The walk of a hash comes to an empty slot within `size` probes. -/
theorem Sized.used_before_empty {shift : Nat} (sized : ht.Sized shift) (room : HasRoom ht.nodes) (hash : Nat) :
    ∃ last < ht.size, ∀ k ≤ last, ∀ node,
      ht.nodes[probePath ht.mask (hash % ht.mod) k]? = some node → node.keyHash ≠ 0 → k < last := by
  obtain ⟨free, freeNode, freeFound, unused⟩ := room
  have freeBound : free < ht.size := by
    rw [← sized.length]
    exact (List.getElem?_eq_some_iff.mp freeFound).1
  obtain ⟨last, within, lastSlot⟩ := sized.path_meets hash freeBound
  refine ⟨last, within, fun k bound node found used => Nat.lt_of_le_of_ne bound fun atLast => used ?_⟩
  rw [atLast, lastSlot, freeFound, Option.some.injEq] at found
  rw [← found]
  exact unused

section Loops

variable [DecidableEq K] {shift : Nat}

/-- The node is the one the lookup loops stop at: its hash and its key both agree. -/
def Matches (ht : HashTable K V) (key : K) (node : HashNode K V) : Prop :=
  node.keyHash = ht.hashValue key ∧ ht.keyEqual node.key key

omit [DecidableEq K] in
theorem hashValue_gt (ht : HashTable K V) (key : K) : 1 < ht.hashValue key := by
  unfold hashValue
  dsimp only
  split <;> omega

theorem Matches.live {node : HashNode K V} (found : ht.Matches key node) : node.live := by
  simp only [HashNode.live, found.1, decide_eq_true_eq]
  exact ht.hashValue_gt key

/-- Probing for `key` comes to an empty slot and passes no match before it. -/
def Misses (ht : HashTable K V) (key : K) : Prop :=
  ∃ k node, ht.nodes[probePath ht.mask (ht.hashValue key % ht.mod) k]? = some node ∧
    node.keyHash = 0 ∧
    ∀ j < k, ∃ passed, ht.nodes[probePath ht.mask (ht.hashValue key % ht.mod) j]? = some passed ∧
      passed.keyHash ≠ 0 ∧ ¬ ht.Matches key passed

/-- The first `k` probes for `key` meet nodes that are in use and no match. -/
def Passed (ht : HashTable K V) (key : K) (k : Nat) : Prop :=
  ∀ j < k, ∃ node, ht.nodes[probePath ht.mask (ht.hashValue key % ht.mod) j]? = some node ∧
    node.keyHash ≠ 0 ∧ ¬ ht.Matches key node

/-- The invariant of the loop of `_hash_table_lookup_node_for_insertion`: the tombstone it
remembers is one of the nodes it passed. -/
def Remembers (ht : HashTable K V) (key : K) (k : Nat) (firstTombstone : Option Nat) : Prop :=
  ht.Passed key k ∧ ∀ slot, firstTombstone = some slot → ∃ j < k, ∃ node,
    probePath ht.mask (ht.hashValue key % ht.mod) j = slot ∧ ht.nodes[slot]? = some node ∧ node.keyHash = 1

section Walk

variable {node : HashNode K V} {k : Nat}

theorem Passed.succ (passed : ht.Passed key k)
    (found : ht.nodes[probePath ht.mask (ht.hashValue key % ht.mod) k]? = some node)
    (used : node.keyHash ≠ 0) (other : ¬ ht.Matches key node) : ht.Passed key (k + 1) :=
  Nat.forall_lt_succ_right.mpr ⟨passed, node, found, used, other⟩

theorem Passed.occupied (passed : ht.Passed key k) {j : Nat} (earlier : j < k) :
    OccupiedAt ht.nodes (probePath ht.mask (ht.hashValue key % ht.mod) j) := by
  obtain ⟨node, found, used, _⟩ := passed j earlier
  exact ⟨node, found, used⟩

theorem lookupVisit_moves {next : Unit} (passed : ht.Passed key k)
    (found : ht.nodes[probePath ht.mask (ht.hashValue key % ht.mod) k]? = some node)
    (moved : ht.lookupVisit key () (probePath ht.mask (ht.hashValue key % ht.mod) k) = some (.inr next)) :
    node.keyHash ≠ 0 ∧ ht.Passed key (k + 1) := by
  simp only [lookupVisit, found, Option.map_some, Option.some.injEq] at moved
  split at moved
  case isTrue => contradiction
  case isFalse used =>
    split at moved
    case isTrue => contradiction
    case isFalse other => exact ⟨used, passed.succ found used other⟩

theorem insertionVisit_moves {firstTombstone next : Option Nat} (remembers : ht.Remembers key k firstTombstone)
    (found : ht.nodes[probePath ht.mask (ht.hashValue key % ht.mod) k]? = some node)
    (moved : ht.insertionVisit key firstTombstone (probePath ht.mask (ht.hashValue key % ht.mod) k) =
      some (.inr next)) :
    node.keyHash ≠ 0 ∧ ht.Remembers key (k + 1) next := by
  obtain ⟨passed, remembered⟩ := remembers
  have keep : ∀ slot, firstTombstone = some slot → ∃ j < k + 1, ∃ node,
      probePath ht.mask (ht.hashValue key % ht.mod) j = slot ∧
      ht.nodes[slot]? = some node ∧ node.keyHash = 1 := by
    intro slot same
    obtain ⟨j, less, rest⟩ := remembered slot same
    exact ⟨j, Nat.lt_succ_of_lt less, rest⟩
  simp only [insertionVisit, found, Option.map_some, Option.some.injEq] at moved
  split at moved
  case isTrue => contradiction
  case isFalse used =>
    split at moved
    case isTrue =>
      split at moved
      case isTrue => contradiction
      case isFalse differs =>
        cases moved
        exact ⟨used, passed.succ found used fun same => differs same.2, keep⟩
    case isFalse otherHash =>
      have further := passed.succ found used fun same => otherHash same.1
      split at moved
      case isTrue first =>
        cases moved
        refine ⟨used, further, fun slot same => ?_⟩
        cases same
        exact ⟨k, Nat.lt_succ_self k, node, rfl, found, first.1⟩
      case isFalse =>
        cases moved
        exact ⟨used, further, keep⟩

end Walk

/-- The loop of `_hash_table_lookup_node` ends within `size` probes, at a match or at
the empty slot that shows there is none. -/
theorem lookupNode_spec (sized : ht.Sized shift) (room : HasRoom ht.nodes) (key : K) :
    ∃ slot node, ht.lookupNode key = some slot ∧ ht.nodes[slot]? = some node ∧
      (ht.Matches key node ∨ (node.keyHash = 0 ∧ ht.Misses key)) := by
  obtain ⟨last, within, usedBefore⟩ := sized.used_before_empty room (ht.hashValue key)
  obtain ⟨k, _, _, slot, passed, visited, result⟩ := probeLoop_ends ht.mask
    (ht.hashValue key % ht.mod) (ht.lookupVisit key) () (fun k _ => ht.Passed key k)
    (fun j less => absurd less (Nat.not_lt_zero j))
    (by
      intro k s bound passed
      obtain ⟨node, found⟩ := sized.path_node (ht.hashValue key) k
      refine ⟨_, by rw [lookupVisit, found, Option.map_some], fun next moved => ?_⟩
      obtain ⟨used, further⟩ := lookupVisit_moves passed found (by
        rw [lookupVisit, found, Option.map_some, moved])
      exact ⟨usedBefore k bound node found used, further⟩)
    within
  obtain ⟨node, found⟩ := sized.path_node (ht.hashValue key) k
  simp only [lookupVisit, found, Option.map_some, Option.some.injEq] at visited
  split at visited
  case isTrue empty =>
    cases visited
    exact ⟨_, node, result, found, .inr ⟨empty, k, node, found, empty, passed⟩⟩
  case isFalse =>
    split at visited
    case isTrue same =>
      cases visited
      exact ⟨_, node, result, found, .inl same⟩
    case isFalse => contradiction

/-- The loop of `_hash_table_lookup_node_for_insertion` ends within `size` probes, at
a match or, when there is none, at a free slot that probing for the key reaches. -/
theorem lookupNodeForInsertion_spec (sized : ht.Sized shift) (room : HasRoom ht.nodes) (key : K) :
    ∃ slot node, ht.lookupNodeForInsertion key = some slot ∧ ht.nodes[slot]? = some node ∧
      (ht.Matches key node ∨ (node.live = false ∧ ht.Misses key ∧
        ReachedFrom ht.nodes ht.mask (ht.hashValue key % ht.mod) slot)) := by
  obtain ⟨last, within, usedBefore⟩ := sized.used_before_empty room (ht.hashValue key)
  obtain ⟨k, _, firstTombstone, slot, ⟨passed, remembered⟩, visited, result⟩ := probeLoop_ends ht.mask
    (ht.hashValue key % ht.mod) (ht.insertionVisit key) none (ht.Remembers key)
    ⟨fun j less => absurd less (Nat.not_lt_zero j), fun _ none => nomatch none⟩
    (by
      intro k firstTombstone bound remembers
      obtain ⟨node, found⟩ := sized.path_node (ht.hashValue key) k
      refine ⟨_, by rw [insertionVisit, found, Option.map_some], fun next moved => ?_⟩
      obtain ⟨used, further⟩ := insertionVisit_moves remembers found (by
        rw [insertionVisit, found, Option.map_some, moved])
      exact ⟨usedBefore k bound node found used, further⟩)
    within
  obtain ⟨node, found⟩ := sized.path_node (ht.hashValue key) k
  simp only [insertionVisit, found, Option.map_some, Option.some.injEq] at visited
  split at visited
  case isTrue empty =>
    have misses : ht.Misses key := ⟨k, node, found, empty, passed⟩
    cases firstTombstone with
    | none =>
        cases visited
        refine ⟨_, node, result, found, .inr ⟨?_, misses, k, rfl, fun j => passed.occupied⟩⟩
        simp [HashNode.live, empty]
    | some first =>
        cases visited
        obtain ⟨j, less, buried, here, foundBuried, tomb⟩ := remembered first rfl
        refine ⟨_, buried, result, foundBuried, .inr ⟨?_, misses, j, here, ?_⟩⟩
        · simp [HashNode.live, tomb]
        · exact fun i earlier => passed.occupied (Nat.lt_trans earlier less)
  case isFalse =>
    split at visited
    case isTrue sameHash =>
      split at visited
      case isTrue same =>
        cases visited
        exact ⟨_, node, result, found, .inl ⟨sameHash, same⟩⟩
      case isFalse => contradiction
    case isFalse => split at visited <;> contradiction

end Loops

end HashTable

end Oil.Core
