import Oil.Core.HashTable.Refinement
import Oil.Data.Accounts

namespace Oil.Core

open Oil.Data

variable {K V : Type}

/-- What the table owns by a stored pair. -/
def HashNode.parts (node : HashNode K V) : List (Destroyed K V) := [.key node.key, .value node.value]

namespace HashTable

def owned (ht : HashTable K V) : List (Destroyed K V) := ht.stored.flatMap HashNode.parts

/-- What a call hands over to the table. -/
def Call.given : Call K V → List (Destroyed K V)
  | .insert key val => [.key key, .value val]
  | _ => []

def Call.keys : Call K V → List K
  | .insert key _ => [key]
  | _ => []

def Call.values : Call K V → List V
  | .insert _ val => [val]
  | _ => []

/-- What holds of a table between calls, however many pairs it stores: it is not so full
that it would have to grow. -/
structure Roomy (ht : HashTable K V) : Prop extends ht.Counted where
  spare : ht.noccupied + ht.noccupied / 16 < ht.size

variable {ht next : HashTable K V}

theorem Roomy.room (roomy : ht.Roomy) : ht.noccupied < ht.size := by
  have := roomy.spare
  omega

theorem Roomy.nnodes_lt (roomy : ht.Roomy) : ht.nnodes + 1 < 2 ^ 31 := by
  have := roomy.spare
  have := roomy.size_le
  have := roomy.nnodes_le
  omega

variable [Pointer K] [Pointer V]

theorem new_roomy {hashFunc : K → UInt32} {keyEqualFunc : Option (K → K → Bool)}
    {keyDestroyFunc valueDestroyFunc : Bool}
    (made : new (some hashFunc) keyEqualFunc keyDestroyFunc valueDestroyFunc = some ht) :
    ht.Roomy ∧ ht.funcs = (hashFunc, keyEqualFunc, keyDestroyFunc, valueDestroyFunc) ∧ ht.stored = [] := by
  obtain ⟨fresh, same, wellFormed, funcs, empty⟩ :=
    new_spec (K := K) (V := V) hashFunc keyEqualFunc keyDestroyFunc valueDestroyFunc
  obtain rfl := Option.some.inj (made.symm.trans same)
  refine ⟨⟨wellFormed.toCounted, ?_⟩, funcs, empty⟩
  obtain rfl := Option.some.inj made
  show 0 + 0 / 16 < 2 ^ HASH_TABLE_MIN_SHIFT
  decide

/-- Where a table has too many pairs to grow, reading `prime_mod` fails; otherwise resizing
keeps the pairs. -/
theorem maybeResize_returned (counted : ht.Counted) (fits : ht.nnodes < 2 ^ 31)
    (resized : ht.maybeResize = some next) :
    next.Roomy ∧ next.funcs = ht.funcs ∧ next.stored.Perm ht.stored := by
  rw [maybeResize] at resized
  split at resized
  case isFalse kept =>
    obtain rfl := Option.some.inj resized
    have small := counted.size_le
    have used := counted.noccupied_le
    have sum : u32 (ht.noccupied + ht.noccupied / 16) = ht.noccupied + ht.noccupied / 16 :=
      u32_of_lt (by omega)
    simp only [needsResize, sum, Bool.or_eq_true, decide_eq_true_eq, not_or, Nat.not_le] at kept
    exact ⟨⟨counted, kept.2⟩, rfl, .refl _⟩
  case isTrue =>
    by_cases few : ht.nnodes < 2 ^ 30
    · obtain ⟨_, same, wellFormed, funcs, perm, half⟩ := resize_halves counted.nnodes few
      obtain rfl := Option.some.inj (resized.symm.trans same)
      exact ⟨⟨wellFormed.toCounted, by omega⟩, funcs, perm⟩
    · -- the table asks for 2 ^ 32 slots
      have doubled : u32 (ht.nnodes * 2) = ht.nnodes * 2 := u32_of_lt (by omega)
      have bits : findClosestShift (ht.nnodes * 2) = 32 := by
        rw [findClosestShift_eq_size (by omega)]
        exact Nat.le_antisymm (Nat.size_le.mpr (by omega)) (Nat.lt_size.mpr (by omega))
      simp [resize, setShiftFromSize, setShift, doubled, bits, HASH_TABLE_MIN_SHIFT, primeMod] at resized

/-- What a call does to the stored pairs, and what it destroys. -/
inductive Changed (ht next : HashTable K V) : Call K V → List (Destroyed K V) → Prop where
  | kept {call : Call K V} (same : next = ht) (gives : null ∉ call.keys → call.given = []) : Changed ht next call []
  | replaced {key : K} {val : V} {node : HashNode K V} {rest : List (HashNode K V)}
      (before : ht.stored.Perm (node :: rest)) (after : next.stored.Perm ({ node with value := val } :: rest)) :
      Changed ht next (.insert key val) (ht.destroyKey key ++ ht.destroyValue node.value)
  | added {key : K} {val : V} (grown : next.stored.Perm (⟨key, val, ht.hashValue key⟩ :: ht.stored)) :
      Changed ht next (.insert key val) []
  | removed {key : K} {node : HashNode K V} {rest : List (HashNode K V)}
      (before : ht.stored.Perm (node :: rest)) (after : next.stored.Perm rest) :
      Changed ht next (.remove key) (ht.destroyKey node.key ++ ht.destroyValue node.value)
  | emptied (empty : next.stored = []) : Changed ht next .removeAll ht.removeAllNodes.2

variable [DecidableEq K] {key : K} {val : V} {destroyed : List (Destroyed K V)} {count : Nat}

theorem insert_returned (roomy : ht.Roomy) (nonNull : key ≠ null)
    (called : ht.insert key val = some (next, destroyed)) :
    next.Roomy ∧ next.funcs = ht.funcs ∧
      ((∃ node rest, ht.Matches key node ∧ ht.stored.Perm (node :: rest) ∧
          next.stored.Perm ({ node with value := val } :: rest) ∧
          destroyed = ht.destroyKey key ++ ht.destroyValue node.value) ∨
        (ht.Misses key ∧ next.stored.Perm (⟨key, val, ht.hashValue key⟩ :: ht.stored) ∧
          destroyed = [])) := by
  rcases insert_cases val roomy.toCounted roomy.room nonNull with
    ⟨slot, node, rest, found, same, before, after, inserted⟩ |
      ⟨misses, grown, counted, funcs, size, nnodes, perm, grows⟩
  · obtain ⟨rfl, rfl⟩ := Prod.mk.inj (Option.some.inj (called.symm.trans inserted))
    exact ⟨⟨roomy.toCounted.replaceValue found same.live val, roomy.spare⟩, rfl,
      .inl ⟨node, rest, same, before, after, rfl⟩⟩
  · rcases grows with ⟨noccupied, inserted⟩ | ⟨noccupied, inserted⟩
    · obtain ⟨rfl, rfl⟩ := Prod.mk.inj (Option.some.inj (called.symm.trans inserted))
      refine ⟨⟨counted, ?_⟩, funcs, .inr ⟨misses, perm, rfl⟩⟩
      rw [noccupied, size]
      exact roomy.spare
    · obtain ⟨resizedTable, resized, same⟩ := Option.map_eq_some_iff.mp (inserted.symm.trans called)
      obtain ⟨rfl, rfl⟩ := Prod.mk.inj same
      have fits := roomy.nnodes_lt
      obtain ⟨roomyNext, sameFuncs, stored⟩ := maybeResize_returned counted (by omega) resized
      exact ⟨roomyNext, sameFuncs.trans funcs, .inr ⟨misses, stored.trans perm, rfl⟩⟩

theorem remove_returned (roomy : ht.Roomy) (nonNull : key ≠ null)
    (called : ht.remove key = some (count, next, destroyed)) :
    next.Roomy ∧ next.funcs = ht.funcs ∧
      ((∃ node rest, ht.Matches key node ∧ count = 1 ∧ ht.stored.Perm (node :: rest) ∧
          next.stored.Perm rest ∧ destroyed = ht.destroyKey node.key ++ ht.destroyValue node.value) ∨
        (ht.Misses key ∧ count = 0 ∧ next = ht ∧ destroyed = [])) := by
  rcases remove_cases roomy.toCounted roomy.room nonNull with
    ⟨node, rest, shrunk, same, perm, counted, funcs, size, nnodes, left, removed⟩ | ⟨misses, removed⟩
  · obtain ⟨resizedTable, resized, same'⟩ := Option.map_eq_some_iff.mp (removed.symm.trans called)
    simp only [Prod.mk.injEq] at same'
    obtain ⟨rfl, rfl, rfl⟩ := same'
    have fits := roomy.nnodes_lt
    obtain ⟨roomyNext, sameFuncs, stored⟩ := maybeResize_returned counted (by omega) resized
    exact ⟨roomyNext, sameFuncs.trans funcs, .inl ⟨node, rest, same, rfl, perm, stored.trans left, rfl⟩⟩
  · have unchanged := Option.some.inj (called.symm.trans removed)
    simp only [Prod.mk.injEq] at unchanged
    obtain ⟨rfl, rfl, rfl⟩ := unchanged
    exact ⟨roomy, rfl, .inr ⟨misses, rfl, rfl, rfl⟩⟩

omit [DecidableEq K] in
theorem removeAll_returned (roomy : ht.Roomy) (called : ht.removeAll = some (next, destroyed)) :
    next.Roomy ∧ next.funcs = ht.funcs ∧ next.stored = [] ∧ destroyed = ht.removeAllNodes.2 := by
  obtain ⟨counted, emptied, cleared⟩ := removeAllNodes_spec roomy.toCounted
  obtain ⟨resizedTable, resized, same⟩ := Option.map_eq_some_iff.mp (cleared.symm.trans called)
  obtain ⟨rfl, rfl⟩ := Prod.mk.inj same
  obtain ⟨roomyNext, sameFuncs, stored⟩ :=
    maybeResize_returned counted (show 0 < 2 ^ 31 by decide) resized
  exact ⟨roomyNext, sameFuncs, List.Perm.eq_nil (emptied ▸ stored), rfl⟩

omit [Pointer K] [Pointer V] [DecidableEq K] in
theorem destroys_both (destroys : ht.keyDestroyFunc = true ∧ ht.valueDestroyFunc = true) (key : K) (value : V) :
    ht.destroyKey key ++ ht.destroyValue value = [.key key, .value value] := by
  simp [destroyKey, destroyValue, destroys]

omit [DecidableEq K] in
theorem destroy_eq_owned (destroys : ht.keyDestroyFunc = true ∧ ht.valueDestroyFunc = true) :
    ht.destroy = ht.owned := by
  simp only [destroy, removeAllNodes, destroys_both destroys]
  rfl

omit [Pointer K] [Pointer V] [DecidableEq K] in
theorem funcs_destroy (same : next.funcs = ht.funcs)
    (destroys : ht.keyDestroyFunc = true ∧ ht.valueDestroyFunc = true) :
    next.keyDestroyFunc = true ∧ next.valueDestroyFunc = true := by
  simp only [funcs, Prod.mk.injEq] at same
  exact ⟨same.2.2.1.trans destroys.1, same.2.2.2.trans destroys.2⟩

theorem step_changed {call : Call K V} {outcome : Outcome V} (roomy : ht.Roomy)
    (called : ht.step call = some (next, outcome, destroyed)) :
    next.Roomy ∧ next.funcs = ht.funcs ∧ Changed ht next call destroyed := by
  cases call with
  | insert key val =>
      obtain ⟨⟨after, gone⟩, inserted, same⟩ := Option.map_eq_some_iff.mp called
      simp only [Prod.mk.injEq] at same
      obtain ⟨rfl, _, rfl⟩ := same
      by_cases isNull : key = null
      · simp only [insert, if_pos isNull, Option.some.injEq, Prod.mk.injEq] at inserted
        obtain ⟨rfl, rfl⟩ := inserted
        exact ⟨roomy, rfl, .kept rfl fun nonNull => absurd (by simp [Call.keys, isNull]) nonNull⟩
      · obtain ⟨roomyNext, funcs, stored⟩ := insert_returned roomy isNull inserted
        rcases stored with ⟨node, rest, _, before, afterwards, rfl⟩ | ⟨_, grown, rfl⟩
        · exact ⟨roomyNext, funcs, .replaced before afterwards⟩
        · exact ⟨roomyNext, funcs, .added grown⟩
  | lookup key =>
      obtain ⟨value, _, same⟩ := Option.map_eq_some_iff.mp called
      simp only [Prod.mk.injEq] at same
      obtain ⟨rfl, _, rfl⟩ := same
      exact ⟨roomy, rfl, .kept rfl fun _ => rfl⟩
  | remove key =>
      obtain ⟨⟨count, after, gone⟩, removed, same⟩ := Option.map_eq_some_iff.mp called
      simp only [Prod.mk.injEq] at same
      obtain ⟨rfl, _, rfl⟩ := same
      by_cases isNull : key = null
      · simp only [remove, if_pos isNull, Option.some.injEq, Prod.mk.injEq] at removed
        obtain ⟨_, rfl, rfl⟩ := removed
        exact ⟨roomy, rfl, .kept rfl fun _ => rfl⟩
      · obtain ⟨roomyNext, funcs, stored⟩ := remove_returned roomy isNull removed
        rcases stored with ⟨node, rest, _, _, before, afterwards, rfl⟩ | ⟨_, _, rfl, rfl⟩
        · exact ⟨roomyNext, funcs, .removed before afterwards⟩
        · exact ⟨roomyNext, funcs, .kept rfl fun _ => rfl⟩
  | removeAll =>
      obtain ⟨⟨after, gone⟩, cleared, same⟩ := Option.map_eq_some_iff.mp called
      simp only [Prod.mk.injEq] at same
      obtain ⟨rfl, _, rfl⟩ := same
      obtain ⟨roomyNext, funcs, empty, rfl⟩ := removeAll_returned roomy cleared
      exact ⟨roomyNext, funcs, .emptied empty⟩

/-- A call on a table with both destroy functions: what is handed over and what the table
owned before, it owns after the call or has destroyed in it. -/
theorem step_returned {call : Call K V} {outcome : Outcome V} (roomy : ht.Roomy)
    (called : ht.step call = some (next, outcome, destroyed)) :
    next.Roomy ∧ next.funcs = ht.funcs ∧
      (ht.keyDestroyFunc = true ∧ ht.valueDestroyFunc = true → null ∉ call.keys →
        (call.given ++ ht.owned).Perm (next.owned ++ destroyed)) := by
  obtain ⟨roomyNext, funcs, changed⟩ := step_changed roomy called
  refine ⟨roomyNext, funcs, fun destroys nonNull => ?_⟩
  cases changed with
  | kept same gives =>
      obtain rfl := same
      rw [gives nonNull, List.nil_append, List.append_nil]
  | @replaced key val node rest before after =>
      -- the new key and the old value go, the old key stays
      rw [destroys_both destroys]
      have owned : ht.owned.Perm (node.parts ++ rest.flatMap HashNode.parts) := before.flatMap_right _
      have ownedNext : next.owned.Perm ([.key node.key, .value val] ++ rest.flatMap HashNode.parts) :=
        after.flatMap_right _
      refine (owned.append_left _).trans (.trans ?_ (ownedNext.append_right _).symm)
      classical
      rw [List.perm_iff_count]
      intro entry
      simp only [Call.given, HashNode.parts, List.count_append, List.count_cons, List.count_nil]
      omega
  | @added key val grown =>
      rw [List.append_nil]
      have ownedNext : next.owned.Perm ([.key key, .value val] ++ ht.owned) := grown.flatMap_right _
      exact ownedNext.symm
  | @removed _ node rest before after =>
      rw [destroys_both destroys]
      have owned : ht.owned.Perm (node.parts ++ rest.flatMap HashNode.parts) := before.flatMap_right _
      have ownedNext : next.owned.Perm (rest.flatMap HashNode.parts) := after.flatMap_right _
      exact owned.trans (List.perm_append_comm.trans (ownedNext.append_right _).symm)
  | emptied empty =>
      rw [show ht.removeAllNodes.2 = ht.owned from destroy_eq_owned destroys,
        show next.owned = [] by rw [owned, empty, List.flatMap_nil]]
      exact .refl _

theorem step_stored {call : Call K V} {outcome : Outcome V} {node : HashNode K V} (roomy : ht.Roomy)
    (called : ht.step call = some (next, outcome, destroyed)) (member : node ∈ next.stored) :
    node ∈ ht.stored ∨ ∃ key val, call = .insert key val ∧
      (node = ⟨key, val, ht.hashValue key⟩ ∨ ∃ old ∈ ht.stored, node = { old with value := val }) := by
  obtain ⟨_, _, changed⟩ := step_changed roomy called
  cases changed with
  | kept same _ => exact .inl (same ▸ member)
  | @replaced key val old rest before after =>
      rcases List.mem_cons.mp (after.mem_iff.mp member) with rfl | kept
      · exact .inr ⟨key, val, rfl, .inr ⟨old, before.mem_iff.mpr (.head _), rfl⟩⟩
      · exact .inl (before.mem_iff.mpr (.tail _ kept))
  | @added key val grown =>
      rcases List.mem_cons.mp (grown.mem_iff.mp member) with rfl | kept
      · exact .inr ⟨key, val, rfl, .inl rfl⟩
      · exact .inl kept
  | removed before after => exact .inl (before.mem_iff.mpr (.tail _ (after.mem_iff.mp member)))
  | emptied empty =>
      rw [empty] at member
      contradiction

theorem step_hashed {call : Call K V} {outcome : Outcome V} (roomy : ht.Roomy)
    (hashed : ∀ node ∈ ht.stored, node.keyHash = ht.hashValue node.key)
    (called : ht.step call = some (next, outcome, destroyed)) :
    ∀ node ∈ next.stored, node.keyHash = next.hashValue node.key := by
  obtain ⟨_, funcs, _⟩ := step_returned roomy called
  intro node member
  rw [hashValue_congr funcs]
  rcases step_stored roomy called member with kept | ⟨key, val, _, rfl | ⟨old, kept, rfl⟩⟩
  · exact hashed node kept
  · rfl
  · exact hashed old kept

/-- The books of a table: whatever was handed over is owned or has been destroyed. -/
theorem run_balanced {calls : List (Call K V)} {last : HashTable K V}
    {results : List (Outcome V × List (Destroyed K V))} {given gone : List (Destroyed K V)}
    (roomy : ht.Roomy) (destroys : ht.keyDestroyFunc = true ∧ ht.valueDestroyFunc = true)
    (nonNull : null ∉ calls.flatMap Call.keys) (balanced : Balanced given ht.owned gone)
    (ran : ht.run calls = some (last, results)) :
    (last.keyDestroyFunc = true ∧ last.valueDestroyFunc = true) ∧
      Balanced (given ++ calls.flatMap Call.given) last.owned (gone ++ results.flatMap Prod.snd) := by
  induction calls generalizing ht given gone results with
  | nil =>
      obtain ⟨rfl, rfl⟩ := Prod.mk.inj (Option.some.inj ran)
      rw [List.flatMap_nil, List.flatMap_nil, List.append_nil, List.append_nil]
      exact ⟨destroys, balanced⟩
  | cons call calls ih =>
      simp only [run, Option.bind_eq_bind, Option.bind_eq_some_iff] at ran
      obtain ⟨⟨next, outcome, destroyed⟩, called, ⟨_, rest⟩, ranRest, same⟩ := ran
      obtain ⟨rfl, rfl⟩ := Prod.mk.inj (Option.some.inj same)
      rw [List.flatMap_cons, List.mem_append, not_or] at nonNull
      obtain ⟨roomyNext, funcs, moved⟩ := step_returned roomy called
      have later := ih roomyNext (funcs_destroy funcs destroys) nonNull.2
        (balanced.step (moved destroys nonNull.1)) ranRest
      rwa [List.append_assoc, List.append_assoc] at later

theorem run_append {before after : List (Call K V)} {last : HashTable K V}
    {results : List (Outcome V × List (Destroyed K V))} (ran : ht.run (before ++ after) = some (last, results)) :
    ∃ mid done rest, ht.run before = some (mid, done) ∧ mid.run after = some (last, rest) ∧
      results = done ++ rest := by
  induction before generalizing ht results with
  | nil => exact ⟨ht, [], results, rfl, ran, rfl⟩
  | cons call before ih =>
      simp only [List.cons_append, run, Option.bind_eq_bind, Option.bind_eq_some_iff] at ran
      obtain ⟨⟨next, outcome, destroyed⟩, called, ⟨_, others⟩, ranRest, same⟩ := ran
      obtain ⟨rfl, rfl⟩ := Prod.mk.inj (Option.some.inj same)
      obtain ⟨mid, done, rest, first, second, rfl⟩ := ih ranRest
      refine ⟨mid, (outcome, destroyed) :: done, rest, ?_, second, rfl⟩
      simp only [run, called, first, Option.bind_eq_bind, Option.bind_some]
      rfl

omit [DecidableEq K] in
theorem maybeResize_returns (counted : ht.Counted) (few : ht.nnodes < 2 ^ 30) :
    ∃ next, ht.maybeResize = some next := by
  rw [maybeResize]
  split
  · obtain ⟨next, resized, _⟩ := resize_halves counted.nnodes few
    exact ⟨next, resized⟩
  · exact ⟨ht, rfl⟩

theorem step_returns (roomy : ht.Roomy) (few : ht.stored.length < 2 ^ 30 - 1) (call : Call K V) :
    ∃ result, ht.step call = some result := by
  have stored : ht.nnodes = ht.stored.length := by
    rw [roomy.nnodes, List.countP_eq_length_filter, HashTable.stored]
  cases call with
  | insert key val =>
      by_cases isNull : key = null
      · exact ⟨_, by simp only [step, insert, if_pos isNull, Option.map_some]; rfl⟩
      · rcases insert_cases val roomy.toCounted roomy.room isNull with
          ⟨slot, node, rest, _, _, _, _, inserted⟩ | ⟨_, grown, counted, _, _, nnodes, _, grows⟩
        · exact ⟨_, by simp only [step, inserted, Option.map_some]; rfl⟩
        · rcases grows with ⟨_, inserted⟩ | ⟨_, inserted⟩
          · exact ⟨_, by simp only [step, inserted, Option.map_some]; rfl⟩
          · obtain ⟨next, resized⟩ := maybeResize_returns counted (by omega)
            exact ⟨_, by simp only [step, inserted, resized, Option.map_some]; rfl⟩
  | lookup key =>
      by_cases isNull : key = null
      · exact ⟨_, by simp only [step, lookup, if_pos isNull, Option.map_some]; rfl⟩
      · rcases lookup_cases roomy.toCounted roomy.room isNull with ⟨_, _, _, found⟩ | ⟨_, missed⟩
        · exact ⟨_, by simp only [step, found, Option.map_some]; rfl⟩
        · exact ⟨_, by simp only [step, missed, Option.map_some]; rfl⟩
  | remove key =>
      by_cases isNull : key = null
      · exact ⟨_, by simp only [step, remove, if_pos isNull, Option.map_some]; rfl⟩
      · rcases remove_cases roomy.toCounted roomy.room isNull with
          ⟨_, _, shrunk, _, _, counted, _, _, nnodes, _, removed⟩ | ⟨_, removed⟩
        · obtain ⟨next, resized⟩ := maybeResize_returns counted (by omega)
          exact ⟨_, by simp only [step, removed, resized, Option.map_some]; rfl⟩
        · exact ⟨_, by simp only [step, removed, Option.map_some]; rfl⟩
  | removeAll =>
      obtain ⟨counted, _, cleared⟩ := removeAllNodes_spec roomy.toCounted
      obtain ⟨next, resized⟩ := maybeResize_returns counted (show 0 < 2 ^ 30 by decide)
      exact ⟨_, by simp only [step, cleared, resized, Option.map_some]; rfl⟩

theorem run_returns {calls : List (Call K V)} (roomy : ht.Roomy)
    (few : ht.staysBelow (2 ^ 30 - 1) calls) : ∃ last results, ht.run calls = some (last, results) := by
  induction calls generalizing ht with
  | nil => exact ⟨ht, [], rfl⟩
  | cons call calls ih =>
      rw [staysBelow, Bool.and_eq_true, decide_eq_true_eq] at few
      obtain ⟨⟨next, outcome, destroyed⟩, called⟩ := step_returns roomy few.1 call
      rw [called] at few
      obtain ⟨last, results, ran⟩ := ih (step_returned roomy called).1 few.2
      refine ⟨last, (outcome, destroyed) :: results, ?_⟩
      simp only [run, called, ran, Option.bind_eq_bind, Option.bind_some]
      rfl

omit [Pointer K] [Pointer V] [DecidableEq K] in
theorem given_perm (calls : List (Call K V)) :
    (calls.flatMap Call.given).Perm
      ((calls.flatMap Call.keys).map .key ++ (calls.flatMap Call.values).map .value) := by
  induction calls with
  | nil => exact .nil
  | cons call calls ih =>
      cases call with
      | insert key val => exact (ih.cons (.value val)).trans List.perm_middle.symm |>.cons (.key key)
      | lookup key => exact ih
      | remove key => exact ih
      | removeAll => exact ih

omit [Pointer K] [Pointer V] [DecidableEq K] in
theorem given_nodup {calls : List (Call K V)} (keysOnce : (calls.flatMap Call.keys).Nodup)
    (valuesOnce : (calls.flatMap Call.values).Nodup) : (calls.flatMap Call.given).Nodup := by
  rw [(given_perm calls).nodup_iff, List.nodup_append]
  refine ⟨keysOnce.map fun a b same => Destroyed.key.inj same,
    valuesOnce.map fun a b same => Destroyed.value.inj same, ?_⟩
  intro a isKey b isValue same
  obtain ⟨key, _, rfl⟩ := List.mem_map.mp isKey
  obtain ⟨value, _, rfl⟩ := List.mem_map.mp isValue
  contradiction

/-- A moment of a run: the nodes of the table, what the calls before this one have passed to the destroy
functions, and what this one has passed so far. -/
structure Moment (K V : Type) where
  nodes : List (HashNode K V)
  before : List (Destroyed K V)
  now : List (Destroyed K V)
deriving DecidableEq

/-- The moments at which a destroy function returns.  `hash_table_insert`, `_hash_table_remove_node` and
`_hash_table_remove_all_nodes` call them all before they write to a node. -/
def destroying (nodes : List (HashNode K V)) (before destroyed : List (Destroyed K V)) : List (Moment K V) :=
  (List.range destroyed.length).map fun i => ⟨nodes, before, destroyed.take (i + 1)⟩

/-- The moments of a run that ends in `hash_table_destroy`: those within its calls, and those after them. -/
def moments (ht : HashTable K V) (before : List (Destroyed K V)) : List (Call K V) → List (Moment K V)
  | [] => destroying ht.nodes before ht.destroy
  | call :: calls =>
      match ht.step call with
      | none => []
      | some (next, _, destroyed) =>
          destroying ht.nodes before destroyed ++ ⟨next.nodes, before ++ destroyed, []⟩ ::
            next.moments (before ++ destroyed) calls

/-- Nothing that the calls before have destroyed is in a live slot. -/
def Moment.Spared (moment : Moment K V) : Prop :=
  ∀ node ∈ moment.nodes, node.live → .key node.key ∉ moment.before ∧ .value node.value ∉ moment.before

omit [Pointer K] [Pointer V] [DecidableEq K] in
theorem spared_of_balanced {given before now : List (Destroyed K V)} (once : given.Nodup)
    (balanced : Balanced given ht.owned before) : Moment.Spared ⟨ht.nodes, before, now⟩ := by
  intro node inNodes live
  have stored : node ∈ ht.stored := List.mem_filter.mpr ⟨inNodes, live⟩
  have holds {part : Destroyed K V} (isPart : part ∈ node.parts) : part ∈ ht.owned :=
    List.mem_flatMap.mpr ⟨node, stored, isPart⟩
  exact ⟨balanced.not_released once (holds (.head _)), balanced.not_released once (holds (.tail _ (.head _)))⟩

/-- While a call destroys something, the slots are as they were between calls. -/
theorem moments_spared {calls : List (Call K V)} {given before : List (Destroyed K V)} (roomy : ht.Roomy)
    (destroys : ht.keyDestroyFunc = true ∧ ht.valueDestroyFunc = true) (nonNull : null ∉ calls.flatMap Call.keys)
    (once : (given ++ calls.flatMap Call.given).Nodup) (balanced : Balanced given ht.owned before) :
    ∀ moment ∈ ht.moments before calls, moment.Spared := by
  induction calls generalizing ht given before with
  | nil =>
      intro moment member
      obtain ⟨i, _, rfl⟩ := List.mem_map.mp member
      exact spared_of_balanced (List.nodup_append.mp once).1 balanced
  | cons call calls ih =>
      rw [List.flatMap_cons, List.mem_append, not_or] at nonNull
      rw [List.flatMap_cons, ← List.append_assoc] at once
      rw [moments]
      cases called : ht.step call with
      | none => exact fun moment member => absurd member List.not_mem_nil
      | some result =>
          obtain ⟨next, outcome, destroyed⟩ := result
          obtain ⟨roomyNext, funcs, moved⟩ := step_returned roomy called
          have balancedNext := balanced.step (moved destroys nonNull.1)
          have onceNext := (List.nodup_append.mp once).1
          intro moment member
          rcases List.mem_append.mp member with within | after
          · obtain ⟨i, _, rfl⟩ := List.mem_map.mp within
            exact spared_of_balanced (List.nodup_append.mp onceNext).1 balanced
          · rcases List.mem_cons.mp after with rfl | later
            · exact spared_of_balanced onceNext balancedNext
            · exact ih roomyNext (funcs_destroy funcs destroys) nonNull.2 once balancedNext moment later

/-- A table with both destroy functions, given every key and every value once and destroyed
in the end, destroys every key and every value once, and between two calls stores nothing
that is destroyed; within a call it stores nothing that an earlier one has destroyed.  Neither
function argument of `hash_table_new` has to obey any law. -/
theorem each_pair_is_destroyed_once [DecidableEq V] (hashFunc : K → UInt32)
    (keyEqualFunc : Option (K → K → Bool)) {fresh : HashTable K V}
    (made : new (some hashFunc) keyEqualFunc true true = some fresh) (calls : List (Call K V))
    (nonNull : null ∉ calls.flatMap Call.keys) (keysOnce : (calls.flatMap Call.keys).Nodup)
    (valuesOnce : (calls.flatMap Call.values).Nodup) :
    (fresh.staysBelow (2 ^ 30 - 1) calls → ∃ last results, fresh.run calls = some (last, results)) ∧
    (∀ moment ∈ fresh.moments [] calls, moment.Spared) ∧
    ∀ last results, fresh.run calls = some (last, results) →
      (∀ key val, .insert key val ∈ calls →
        (results.flatMap Prod.snd ++ last.destroy).count (.key key) = 1 ∧
        (results.flatMap Prod.snd ++ last.destroy).count (.value val) = 1) ∧
      ∀ before after, calls = before ++ after → ∃ mid done, fresh.run before = some (mid, done) ∧
        ∀ node ∈ mid.nodes, node.live →
          .key node.key ∉ done.flatMap Prod.snd ∧ .value node.value ∉ done.flatMap Prod.snd := by
  obtain ⟨roomy, funcs, empty⟩ := new_roomy made
  have destroys : fresh.keyDestroyFunc = true ∧ fresh.valueDestroyFunc = true := by
    simp only [HashTable.funcs, Prod.mk.injEq] at funcs
    exact funcs.2.2
  have start : Balanced [] fresh.owned ([] : List (Destroyed K V)) := by
    rw [owned, empty]
    exact .empty
  have once := given_nodup keysOnce valuesOnce
  refine ⟨run_returns roomy, moments_spared roomy destroys nonNull once start, fun last results ran => ⟨?_, ?_⟩⟩
  · intro key val inserted
    obtain ⟨destroysLast, balanced⟩ := run_balanced roomy destroys nonNull start ran
    rw [destroy_eq_owned destroysLast]
    have settled : Balanced (calls.flatMap Call.given) [] (results.flatMap Prod.snd ++ last.owned) :=
      balanced.trans List.perm_append_comm
    have member {part : Destroyed K V} (isPart : part ∈ Call.given (.insert key val)) :
        part ∈ calls.flatMap Call.given := List.mem_flatMap.mpr ⟨_, inserted, isPart⟩
    exact ⟨settled.released_once once (member (.head _)),
      settled.released_once once (member (.tail _ (.head _)))⟩
  · rintro before after rfl
    obtain ⟨mid, done, rest, first, _, _⟩ := run_append ran
    refine ⟨mid, done, first, fun node inNodes live => ?_⟩
    rw [List.flatMap_append, List.mem_append, not_or] at nonNull
    rw [List.flatMap_append] at once
    obtain ⟨_, balanced⟩ := run_balanced roomy destroys nonNull.1 start first
    have spared : Moment.Spared ⟨mid.nodes, done.flatMap Prod.snd, []⟩ :=
      spared_of_balanced (List.nodup_append.mp once).1 balanced
    exact spared node inNodes live

/-- A key equal to a stored one, a removal, and a pair left for the end. -/
theorem each_pair_is_destroyed_once_collision :
    ∃ fresh last : HashTable Nat Nat, ∃ results,
      new (some fun _ => 5) (some fun a b => a % 10 == b % 10) true true = some fresh ∧
      fresh.run [.insert 1 10, .insert 11 20, .insert 2 30, .remove 2] = some (last, results) ∧
      results.map Prod.snd = [[], [.key 11, .value 10], [], [.key 2, .value 30]] ∧
      last.destroy = [.key 1, .value 20] ∧
      (results.flatMap Prod.snd ++ last.destroy).count (.key 1) = 1 := by
  have facts := each_pair_is_destroyed_once (K := Nat) (V := Nat) (fun _ => 5)
    (some fun a b => a % 10 == b % 10) rfl [.insert 1 10, .insert 11 20, .insert 2 30, .remove 2]
    (by decide) (by decide) (by decide)
  obtain ⟨last, results, ran⟩ := facts.1 (by decide)
  refine ⟨_, last, results, rfl, ran, ?_, ?_, ((facts.2.2 last results ran).1 1 10 (.head _)).1⟩
  all_goals obtain ⟨rfl, rfl⟩ := Prod.mk.inj (Option.some.inj ran)
  · rfl
  · rfl

/-- While a call destroys a pair, the pair is still in its slot. -/
theorem destroyed_in_live_slot :
    ¬ ∀ (hashFunc : Nat → UInt32) (keyEqualFunc : Option (Nat → Nat → Bool)) (fresh : HashTable Nat Nat)
        (calls : List (Call Nat Nat)), new (some hashFunc) keyEqualFunc true true = some fresh →
        null ∉ calls.flatMap Call.keys → null ∉ calls.flatMap Call.values → (calls.flatMap Call.keys).Nodup →
        (calls.flatMap Call.values).Nodup → ∀ moment ∈ fresh.moments [] calls, ∀ node ∈ moment.nodes, node.live →
          .key node.key ∉ moment.before ++ moment.now ∧ .value node.value ∉ moment.before ++ moment.now := by
  intro apart
  have emptied := apart (fun _ => 5) none _ [.insert 1 10, .remove 1] rfl (by decide) (by decide) (by decide) (by decide)
  exact absurd emptied (by decide +kernel)

end HashTable

end Oil.Core
