import Oil.Data.Probing

namespace Oil.Core

open Oil.Data

/-! # Hash tables

Open addressing in an array of nodes.  The definitions go by the names of the functions
of `hashtable.c`. -/

/-- `void *`: a type of addresses with its `NULL`. -/
class Pointer (P : Type) where
  null : P

export Pointer (null)

/-- Arithmetic on `unsigned int` wraps at 32 bits. -/
def u32 (value : Nat) : Nat := value % 2 ^ 32

theorem u32_of_lt {value : Nat} (small : value < 2 ^ 32) : u32 value = value :=
  Nat.mod_eq_of_lt small

/-- Conversion of an `unsigned int` to `int`. -/
def toInt (value : Nat) : Int := if value < 2 ^ 31 then value else (value : Int) - 2 ^ 32

/-- `HashNode`.  A `keyHash` of 0 marks a node that is not in use and 1 a
tombstone; any other value is the hash of the stored key. -/
structure HashNode (K V : Type) where
  key : K
  value : V
  keyHash : Nat
deriving DecidableEq

variable {K V : Type} [Pointer K] [Pointer V]

def HashNode.empty : HashNode K V := ⟨null, null, 0⟩

def HashNode.live (node : HashNode K V) : Bool := decide (1 < node.keyHash)

def HashNode.occupied (node : HashNode K V) : Bool := decide (0 < node.keyHash)

/-- `struct _HashTable`.  The two destroy functions act outside the table, so
only whether they are set is recorded; their calls are returned as `Destroyed`. -/
structure HashTable (K V : Type) where
  size : Nat
  mod : Nat
  mask : Nat
  nnodes : Nat
  noccupied : Nat
  nodes : List (HashNode K V)
  hashFunc : K → UInt32
  keyEqualFunc : Option (K → K → Bool)
  keyDestroyFunc : Bool
  valueDestroyFunc : Bool

/-- A call of `key_destroy_func` or of `value_destroy_func`. -/
inductive Destroyed (K V : Type) where
  | key (key : K)
  | value (value : V)
deriving DecidableEq

def HASH_TABLE_MIN_SHIFT : Nat := 3

/-- `prime_mod`, the first prime below each power of two. -/
def primeMod : List Nat :=
  [1, 2, 3, 7, 13, 31, 61, 127, 251, 509, 1021, 2039, 4093, 8191, 16381, 32749, 65521, 131071,
   262139, 524287, 1048573, 2097143, 4194301, 8388593, 16777213, 33554393, 67108859, 134217689,
   268435399, 536870909, 1073741789, 2147483647]

namespace HashTable

/-- `_hash_table_find_closest_shift`: how often `n` can be halved.  An `unsigned int`
is used up after 32 rounds. -/
def findClosestShift (n : Nat) : Nat := loop 32 0 n
where
  loop : (rounds i n : Nat) → Nat
    | 0, i, _ => i
    | rounds + 1, i, n => if n = 0 then i else loop rounds (i + 1) (n / 2)

/-- `_hash_table_set_shift`; reading `prime_mod` past its end is an error. -/
def setShift (ht : HashTable K V) (shift : Nat) : Option (HashTable K V) :=
  (primeMod[shift]?).map fun mod =>
    { ht with size := 2 ^ shift, mod := mod, mask := 2 ^ shift - 1 }

def setShiftFromSize (ht : HashTable K V) (size : Nat) : Option (HashTable K V) :=
  let shift := findClosestShift size
  ht.setShift (if shift < HASH_TABLE_MIN_SHIFT then HASH_TABLE_MIN_SHIFT else shift)

/-- `hash_table_new`; the result is `NULL` when there is no hash function. -/
def new (hashFunc : Option (K → UInt32)) (keyEqualFunc : Option (K → K → Bool))
    (keyDestroyFunc valueDestroyFunc : Bool) : Option (HashTable K V) := do
  let hashFunc ← hashFunc
  let blank : HashTable K V :=
    { size := 0, mod := 0, mask := 0, nnodes := 0, noccupied := 0, nodes := [],
      hashFunc, keyEqualFunc, keyDestroyFunc, valueDestroyFunc }
  let ht ← blank.setShift HASH_TABLE_MIN_SHIFT
  pure { ht with nodes := List.replicate ht.size HashNode.empty }

section Lookup

/-- The adjusted hash of a key: 0 and 1 are reserved for empty nodes and tombstones. -/
def hashValue (ht : HashTable K V) (key : K) : Nat :=
  let hash := (ht.hashFunc key).toNat
  if hash ≤ 1 then 2 else hash

variable [DecidableEq K]

/-- `key_equal_func`, or pointer identity when it is `NULL`. -/
def keyEqual (ht : HashTable K V) (a b : K) : Bool :=
  match ht.keyEqualFunc with
  | some equal => equal a b
  | none => decide (a = b)

/-- One round of the loop of `_hash_table_lookup_node`. -/
def lookupVisit (ht : HashTable K V) (key : K) (_ : Unit) (nodeIndex : Nat) :
    Option (Nat ⊕ Unit) :=
  (ht.nodes[nodeIndex]?).map fun node =>
    if node.keyHash = 0 then .inl nodeIndex
    else if node.keyHash = ht.hashValue key ∧ ht.keyEqual node.key key then .inl nodeIndex
    else .inr ()

/-- `_hash_table_lookup_node`.  The result is `none` if a probe leaves `nodes` or
the loop needs more than `size` probes. -/
def lookupNode (ht : HashTable K V) (key : K) : Option Nat :=
  probeLoop ht.mask (ht.lookupVisit key) ht.size (ht.hashValue key % ht.mod) 0 ()

/-- One round of the loop of `_hash_table_lookup_node_for_insertion`; the state is
the first tombstone met. -/
def insertionVisit (ht : HashTable K V) (key : K) (firstTombstone : Option Nat)
    (nodeIndex : Nat) : Option (Nat ⊕ Option Nat) :=
  (ht.nodes[nodeIndex]?).map fun node =>
    if node.keyHash = 0 then .inl (firstTombstone.getD nodeIndex)
    else if node.keyHash = ht.hashValue key then
      if ht.keyEqual node.key key then .inl nodeIndex else .inr firstTombstone
    else if node.keyHash = 1 ∧ firstTombstone = none then .inr (some nodeIndex)
    else .inr firstTombstone

/-- `_hash_table_lookup_node_for_insertion`, less its `hash_return`, which is `hashValue`. -/
def lookupNodeForInsertion (ht : HashTable K V) (key : K) : Option Nat :=
  probeLoop ht.mask (ht.insertionVisit key) ht.size (ht.hashValue key % ht.mod) 0 none

end Lookup

/-- One round of the inner loop of `_hash_table_resize`. -/
def rehashVisit (newNodes : List (HashNode K V)) (_ : Unit) (slot : Nat) :
    Option (Nat ⊕ Unit) :=
  (newNodes[slot]?).map fun node => if node.keyHash = 0 then .inl slot else .inr ()

/-- One round of the outer loop of `_hash_table_resize`: move `node` to the first
free slot of its probe path.  `ht` already has the new size. -/
def rehashNode (ht : HashTable K V) (newNodes : List (HashNode K V)) (node : HashNode K V) :
    Option (List (HashNode K V)) :=
  if node.keyHash ≤ 1 then some newNodes
  else
    (probeLoop ht.mask (rehashVisit newNodes) ht.size (node.keyHash % ht.mod) 0 ()).map
      fun slot => newNodes.set slot node

def resize (ht : HashTable K V) : Option (HashTable K V) := do
  let resized ← ht.setShiftFromSize (u32 (ht.nnodes * 2))
  let newNodes ← ht.nodes.foldlM resized.rehashNode (List.replicate resized.size HashNode.empty)
  pure { resized with nodes := newNodes, noccupied := ht.nnodes }

/-- The test of `_hash_table_maybe_resize`.  `size` is an `int` there: it is compared
as `unsigned` with the counters and as `int` with the least size. -/
def needsResize (ht : HashTable K V) : Bool :=
  (u32 (ht.nnodes * 4) < ht.size && decide (toInt (2 ^ HASH_TABLE_MIN_SHIFT) < toInt ht.size)) ||
    ht.size ≤ u32 (ht.noccupied + ht.noccupied / 16)

def maybeResize (ht : HashTable K V) : Option (HashTable K V) :=
  if ht.needsResize then ht.resize else some ht

def destroyKey (ht : HashTable K V) (key : K) : List (Destroyed K V) :=
  if ht.keyDestroyFunc then [.key key] else []

def destroyValue (ht : HashTable K V) (value : V) : List (Destroyed K V) :=
  if ht.valueDestroyFunc then [.value value] else []

def removeNode (ht : HashTable K V) (nodeIndex : Nat) (node : HashNode K V) :
    HashTable K V × List (Destroyed K V) :=
  ({ ht with
      nodes := ht.nodes.set nodeIndex ⟨null, null, 1⟩
      nnodes := u32 (ht.nnodes + (2 ^ 32 - 1)) },
    ht.destroyKey node.key ++ ht.destroyValue node.value)

def removeAllNodes (ht : HashTable K V) : HashTable K V × List (Destroyed K V) :=
  ({ ht with nodes := List.replicate ht.size HashNode.empty, nnodes := 0, noccupied := 0 },
    (ht.nodes.filter HashNode.live).flatMap fun node =>
      ht.destroyKey node.key ++ ht.destroyValue node.value)

section Operations

variable [DecidableEq K]

def insert (ht : HashTable K V) (key : K) (val : V) :
    Option (HashTable K V × List (Destroyed K V)) :=
  if key = null then some (ht, []) else do
    let nodeIndex ← ht.lookupNodeForInsertion key
    let node ← ht.nodes[nodeIndex]?
    if node.live then
      -- exists, replace the value and destroy the provided key
      pure ({ ht with nodes := ht.nodes.set nodeIndex { node with value := val } },
        ht.destroyKey key ++ ht.destroyValue node.value)
    else
      let stored := { ht with
        nodes := ht.nodes.set nodeIndex ⟨key, val, ht.hashValue key⟩
        nnodes := u32 (ht.nnodes + 1) }
      if node.keyHash = 0 then
        let resized ← { stored with noccupied := u32 (ht.noccupied + 1) }.maybeResize
        pure (resized, [])
      else pure (stored, [])

def lookup (ht : HashTable K V) (key : K) : Option V :=
  if key = null then some null else do
    let nodeIndex ← ht.lookupNode key
    let node ← ht.nodes[nodeIndex]?
    pure (if node.keyHash ≠ 0 then node.value else null)

/-- `hash_table_remove`; the first result is what the function returns. -/
def remove (ht : HashTable K V) (key : K) :
    Option (Nat × HashTable K V × List (Destroyed K V)) :=
  if key = null then some (0, ht, []) else do
    let nodeIndex ← ht.lookupNode key
    let node ← ht.nodes[nodeIndex]?
    if node.keyHash = 0 then pure (0, ht, [])
    else
      let (removed, destroyed) := ht.removeNode nodeIndex node
      let resized ← removed.maybeResize
      pure (1, resized, destroyed)

def removeAll (ht : HashTable K V) : Option (HashTable K V × List (Destroyed K V)) := do
  let (cleared, destroyed) := ht.removeAllNodes
  let resized ← cleared.maybeResize
  pure (resized, destroyed)

def foreach {σ : Type} (ht : HashTable K V) (visitor : K → V → σ → σ) (userData : σ) : σ :=
  ht.nodes.foldl
    (fun data node => if node.live then visitor node.key node.value data else data) userData

/-- `hash_table_destroy`: what it passes to the destroy functions before freeing the table. -/
def destroy (ht : HashTable K V) : List (Destroyed K V) := ht.removeAllNodes.2

inductive Call (K V : Type) where
  | insert (key : K) (val : V)
  | lookup (key : K)
  | remove (key : K)
  | removeAll

inductive Outcome (V : Type) where
  | done
  | value (value : V)
  | removed (count : Nat)
deriving DecidableEq

def step (ht : HashTable K V) : Call K V → Option (HashTable K V × Outcome V × List (Destroyed K V))
  | .insert key val => (ht.insert key val).map fun (after, destroyed) => (after, .done, destroyed)
  | .lookup key => (ht.lookup key).map fun value => (ht, .value value, [])
  | .remove key => (ht.remove key).map fun (count, after, destroyed) => (after, .removed count, destroyed)
  | .removeAll => ht.removeAll.map fun (after, destroyed) => (after, .done, destroyed)

/-- A run of calls: the last table, and what each call returned and destroyed. -/
def run (ht : HashTable K V) : List (Call K V) →
    Option (HashTable K V × List (Outcome V × List (Destroyed K V)))
  | [] => some (ht, [])
  | call :: calls => do
      let (next, outcome, destroyed) ← ht.step call
      let (last, rest) ← next.run calls
      pure (last, (outcome, destroyed) :: rest)

end Operations

end HashTable

end Oil.Core
