import Oil.Core.HashTable.Operations

namespace Oil.Core

open Oil.Data

instance : Pointer Nat := ⟨0⟩

namespace HashTable

variable {K V : Type} [Pointer K] [Pointer V]

theorem new_spec (hashFunc : K → UInt32) (keyEqualFunc : Option (K → K → Bool))
    (keyDestroyFunc valueDestroyFunc : Bool) :
    ∃ ht : HashTable K V, new (some hashFunc) keyEqualFunc keyDestroyFunc valueDestroyFunc = some ht ∧
      ht.WellFormed ∧ ht.funcs = (hashFunc, keyEqualFunc, keyDestroyFunc, valueDestroyFunc) ∧
      ht.stored = [] := by
  refine ⟨_, rfl, ⟨⟨⟨3, ?_⟩, Chained.replicate _ _ _, rfl, rfl⟩, ?_, .inl rfl⟩, rfl, rfl⟩
  · exact ⟨Nat.le_refl _, rfl, rfl, rfl, rfl⟩
  · show 0 < 2 ^ HASH_TABLE_MIN_SHIFT
    decide

omit [Pointer K] [Pointer V] in
theorem WellFormed.stored_length {ht : HashTable K V} (wellFormed : ht.WellFormed) :
    ht.stored.length = ht.nnodes := by
  rw [wellFormed.nnodes, List.countP_eq_length_filter, stored]

variable [DecidableEq K] {ht next : HashTable K V}

/-- Every call returns, and keeps the table well formed.  No law of the hash function or of
the key comparison is needed. -/
theorem step_wellFormed (wellFormed : ht.WellFormed) (few : ht.stored.length < 2 ^ 29)
    (call : Call K V) :
    ∃ next outcome destroyed, ht.step call = some (next, outcome, destroyed) ∧
      next.WellFormed ∧ next.funcs = ht.funcs := by
  rw [wellFormed.stored_length] at few
  cases call with
  | insert key val =>
      by_cases nonNull : key = null
      · exact ⟨ht, _, _, by simp only [step, insert, if_pos nonNull]; rfl, wellFormed, rfl⟩
      · obtain ⟨next, destroyed, called, rest⟩ := insert_spec val wellFormed few nonNull
        exact ⟨next, _, _, by simp only [step, called]; rfl, rest.1, rest.2.1⟩
  | lookup key =>
      by_cases nonNull : key = null
      · exact ⟨ht, _, _, by simp only [step, lookup, if_pos nonNull]; rfl, wellFormed, rfl⟩
      · rcases lookup_spec wellFormed nonNull with ⟨node, _, _, found⟩ | ⟨_, missed⟩
        · exact ⟨ht, _, _, by simp only [step, found]; rfl, wellFormed, rfl⟩
        · exact ⟨ht, _, _, by simp only [step, missed]; rfl, wellFormed, rfl⟩
  | remove key =>
      by_cases nonNull : key = null
      · exact ⟨ht, _, _, by simp only [step, remove, if_pos nonNull]; rfl, wellFormed, rfl⟩
      · obtain ⟨count, next, destroyed, called, rest⟩ := remove_spec wellFormed few nonNull
        exact ⟨next, _, _, by simp only [step, called]; rfl, rest.1, rest.2.1⟩
  | removeAll =>
      obtain ⟨next, called, rest⟩ := removeAll_spec wellFormed few
      exact ⟨next, _, _, by simp only [step, called]; rfl, rest.1, rest.2.1⟩

/-- The tables a client can hold, as long as fewer than `2 ^ 29` pairs are stored. -/
inductive Reachable (hashFunc : K → UInt32) (keyEqualFunc : Option (K → K → Bool))
    (keyDestroyFunc valueDestroyFunc : Bool) : HashTable K V → Prop
  | new {ht : HashTable K V}
      (made : new (some hashFunc) keyEqualFunc keyDestroyFunc valueDestroyFunc = some ht) :
      Reachable hashFunc keyEqualFunc keyDestroyFunc valueDestroyFunc ht
  | step {ht next : HashTable K V} {call : Call K V} {outcome : Outcome V}
      {destroyed : List (Destroyed K V)}
      (before : Reachable hashFunc keyEqualFunc keyDestroyFunc valueDestroyFunc ht)
      (called : ht.step call = some (next, outcome, destroyed))
      (few : next.stored.length < 2 ^ 29) :
      Reachable hashFunc keyEqualFunc keyDestroyFunc valueDestroyFunc next

variable {hashFunc : K → UInt32} {keyEqualFunc : Option (K → K → Bool)}
  {keyDestroyFunc valueDestroyFunc : Bool}

theorem Reachable.wellFormed
    (reached : Reachable hashFunc keyEqualFunc keyDestroyFunc valueDestroyFunc ht) :
    ht.WellFormed ∧ ht.stored.length < 2 ^ 29 := by
  induction reached with
  | new made =>
      obtain ⟨fresh, same, wellFormed, _, empty⟩ :=
        new_spec (K := K) (V := V) hashFunc keyEqualFunc keyDestroyFunc valueDestroyFunc
      rw [made, Option.some.injEq] at same
      subst same
      exact ⟨wellFormed, by simp [empty]⟩
  | step _ called few ih =>
      obtain ⟨_, _, _, same, wellFormed, _⟩ := step_wellFormed ih.1 ih.2 _
      rw [called, Option.some.injEq, Prod.mk.injEq] at same
      exact ⟨same.1 ▸ wellFormed, few⟩

/-- The counters, the load policy and the probe loops, in every reachable table: `size` is
a power of two, the counters count, an empty slot is left, and so every lookup loop and
every rehash loop ends within `size` probes of slots below `size`. -/
theorem reachable_counters_and_probes
    (reached : Reachable hashFunc keyEqualFunc keyDestroyFunc valueDestroyFunc ht) :
    (∃ shift, ht.size = 2 ^ shift) ∧ 8 ≤ ht.size ∧ ht.nodes.length = ht.size ∧
      ht.nnodes = ht.nodes.countP (fun node => decide (1 < node.keyHash)) ∧
      ht.noccupied = ht.nodes.countP (fun node => decide (0 < node.keyHash)) ∧
      ht.noccupied < ht.size ∧
      (ht.size = 8 ∨ ht.size ≤ 4 * ht.nnodes) ∧
      (∀ hash k, probePath ht.mask (hash % ht.mod) k < ht.size) ∧
      (∀ key, ∃ slot < ht.size, ht.lookupNode key = some slot) ∧
      (∀ key, ∃ slot < ht.size, ht.lookupNodeForInsertion key = some slot) ∧
      (∃ next, ht.resize = some next) ∧
      (∀ call, ∃ next outcome destroyed, ht.step call = some (next, outcome, destroyed)) := by
  obtain ⟨wellFormed, few⟩ := reached.wellFormed
  obtain ⟨shift, sized⟩ := wellFormed.sized
  have inside {slot : Nat} {node : HashNode K V} (found : ht.nodes[slot]? = some node) :
      slot < ht.size := by
    rw [← sized.length]
    exact (List.getElem?_eq_some_iff.mp found).1
  refine ⟨⟨shift, sized.size⟩, ?_, sized.length, wellFormed.nnodes, wellFormed.noccupied,
    wellFormed.room, wellFormed.dense, sized.path_lt, ?_, ?_, ?_, ?_⟩
  · rw [sized.size]
    show 2 ^ HASH_TABLE_MIN_SHIFT ≤ 2 ^ shift
    exact Nat.pow_le_pow_right (by decide) sized.least
  · intro key
    obtain ⟨slot, node, ended, found, _⟩ := lookupNode_spec sized wellFormed.hasRoom key
    exact ⟨slot, inside found, ended⟩
  · intro key
    obtain ⟨slot, node, ended, found, _⟩ := lookupNodeForInsertion_spec sized wellFormed.hasRoom key
    exact ⟨slot, inside found, ended⟩
  · rw [wellFormed.stored_length] at few
    obtain ⟨next, resized, _⟩ := resize_spec wellFormed.nnodes (by omega)
    exact ⟨next, resized⟩
  · intro call
    obtain ⟨next, outcome, destroyed, called, _⟩ := step_wellFormed wellFormed few call
    exact ⟨next, outcome, destroyed, called⟩

/-- What calls make of a table, as long as it stays within the bound. -/
def afterCalls (ht : HashTable K V) (calls : List (Call K V)) : Option (HashTable K V) :=
  calls.foldlM (fun ht call =>
    (ht.step call).bind fun called => if called.1.stored.length < 2 ^ 29 then some called.1 else none) ht

theorem Reachable.afterCalls {last : HashTable K V} {calls : List (Call K V)}
    (reached : Reachable hashFunc keyEqualFunc keyDestroyFunc valueDestroyFunc ht)
    (ran : ht.afterCalls calls = some last) :
    Reachable hashFunc keyEqualFunc keyDestroyFunc valueDestroyFunc last := by
  induction calls generalizing ht with
  | nil => exact Option.some.inj ran ▸ reached
  | cons call calls ih =>
      obtain ⟨next, stepped, later⟩ := Option.bind_eq_some_iff.mp ran
      obtain ⟨⟨middle, outcome, destroyed⟩, called, bounded⟩ := Option.bind_eq_some_iff.mp stepped
      obtain ⟨few, same⟩ := Option.ite_none_right_eq_some.mp bounded
      obtain rfl := Option.some.inj same
      exact ih (reached.step called few) later

/-- Keys that collide, enough of them to double the table, and one that is removed again. -/
def growingCalls : List (Call Nat Nat) :=
  [.insert 5 50, .insert 12 120, .insert 19 190, .insert 1 10, .insert 2 20, .insert 3 30, .insert 4 40,
    .insert 6 60, .insert 7 70, .remove 12]

theorem reachable_counters_and_probes_grown :
    ∃ ht : HashTable Nat Nat, Reachable (fun key => UInt32.ofNat key) none false false ht ∧
      ht.size = 32 ∧ ht.nnodes = 8 ∧ ht.noccupied = 9 ∧
      ht.nnodes = ht.nodes.countP (fun node => decide (1 < node.keyHash)) ∧ ht.noccupied < ht.size ∧
      (ht.size = 8 ∨ ht.size ≤ 4 * ht.nnodes) ∧ (∃ slot < ht.size, ht.lookupNode 19 = some slot) ∧
      ∃ next, ht.resize = some next := by
  obtain ⟨fresh, made, ran⟩ : ∃ fresh : HashTable Nat Nat,
      new (some fun key => UInt32.ofNat key) none false false = some fresh ∧
      (fresh.afterCalls growingCalls).map (fun ht => (ht.size, ht.nnodes, ht.noccupied)) = some (32, 8, 9) :=
    ⟨_, rfl, by decide +kernel⟩
  obtain ⟨ht, ended, counters⟩ := Option.map_eq_some_iff.mp ran
  obtain ⟨size, nnodes, noccupied⟩ : ht.size = 32 ∧ ht.nnodes = 8 ∧ ht.noccupied = 9 := by simpa using counters
  have reached := Reachable.afterCalls (.new made) ended
  obtain ⟨_, _, _, counted, _, room, dense, _, probes, _, resizes, _⟩ := reachable_counters_and_probes reached
  exact ⟨ht, reached, size, nnodes, noccupied, counted, room, dense, probes 19, resizes⟩

end HashTable

end Oil.Core
