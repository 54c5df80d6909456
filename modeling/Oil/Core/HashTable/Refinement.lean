import Oil.Core.HashTable.Reachable
import Oil.Data.KeyedMap

namespace Oil.Core

open Oil.Data

namespace HashTable

variable {K V : Type} [DecidableEq K]

/-- The comparison a table uses: `key_equal_func`, or identity when it is `NULL`. -/
def equalOf (keyEqualFunc : Option (K → K → Bool)) : K → K → Bool :=
  keyEqualFunc.getD fun a b => decide (a = b)

/-- What a client owes: `key_equal_func` is an equivalence, and equal keys hash alike. -/
structure KeyLaws (hashFunc : K → UInt32) (keyEqualFunc : Option (K → K → Bool)) : Prop where
  equality : ∀ equal, keyEqualFunc = some equal → KeyEquality equal
  hashes : ∀ equal, keyEqualFunc = some equal → ∀ a b, equal a b = true → hashFunc a = hashFunc b

namespace KeyLaws

variable {hashFunc : K → UInt32} {keyEqualFunc : Option (K → K → Bool)}

theorem keyEquality (laws : KeyLaws hashFunc keyEqualFunc) : KeyEquality (equalOf keyEqualFunc) := by
  cases chosen : keyEqualFunc with
  | some equal => exact laws.equality equal chosen
  | none =>
      refine ⟨fun a => decide_eq_true rfl, fun same => ?_, fun left right => ?_⟩
      · exact decide_eq_true (of_decide_eq_true same).symm
      · exact decide_eq_true ((of_decide_eq_true left).trans (of_decide_eq_true right))

theorem hash_eq (laws : KeyLaws hashFunc keyEqualFunc) {a b : K}
    (same : equalOf keyEqualFunc a b = true) : hashFunc a = hashFunc b := by
  cases chosen : keyEqualFunc with
  | some equal =>
      rw [chosen] at same
      exact laws.hashes equal chosen a b same
  | none =>
      rw [chosen] at same
      rw [of_decide_eq_true same]

end KeyLaws

section Stored

variable {ht next : HashTable K V} {hashFunc : K → UInt32} {keyEqualFunc : Option (K → K → Bool)}
  {keyDestroyFunc valueDestroyFunc : Bool}

/-- A key that probing misses is stored nowhere: the chain of a stored match would have
passed the empty slot that ended the search. -/
theorem Misses.not_matches {key : K} (misses : ht.Misses key)
    (chained : Chained ht.nodes ht.mask ht.mod) : ∀ node ∈ ht.stored, ¬ ht.Matches key node := by
  intro node member same
  obtain ⟨inNodes, live⟩ := List.mem_filter.mp member
  obtain ⟨slot, found⟩ := List.getElem?_of_mem inNodes
  obtain ⟨k, hit, before⟩ := same.reached chained found
  obtain ⟨last, empty, emptyFound, unused, passed⟩ := misses
  rcases Nat.lt_trichotomy k last with less | equal | greater
  · obtain ⟨other, otherFound, _, differs⟩ := passed k less
    rw [hit, found, Option.some.injEq] at otherFound
    exact differs (otherFound ▸ same)
  · rw [← equal, hit, found, Option.some.injEq] at emptyFound
    subst emptyFound
    simp [HashNode.live, unused] at live
  · obtain ⟨other, otherFound, used⟩ := before last greater
    rw [emptyFound, Option.some.injEq] at otherFound
    exact used (otherFound ▸ unused)

def pair (node : HashNode K V) : K × V := (node.key, node.value)

omit [DecidableEq K] in
theorem hashValue_congr (same : next.funcs = ht.funcs) (key : K) :
    next.hashValue key = ht.hashValue key := by
  have hash : next.hashFunc = ht.hashFunc := congrArg Prod.fst same
  simp only [hashValue, hash]

theorem keyEqual_eq (funcs : ht.funcs = (hashFunc, keyEqualFunc, keyDestroyFunc, valueDestroyFunc)) :
    ht.keyEqual = equalOf keyEqualFunc := by
  have chosen : ht.keyEqualFunc = keyEqualFunc := congrArg (fun all => all.2.1) funcs
  funext a b
  cases keyEqualFunc <;> simp [keyEqual, chosen, equalOf]

theorem matches_of_equal (laws : KeyLaws hashFunc keyEqualFunc)
    (funcs : ht.funcs = (hashFunc, keyEqualFunc, keyDestroyFunc, valueDestroyFunc))
    {node : HashNode K V} {key : K} (hashed : node.keyHash = ht.hashValue node.key)
    (same : equalOf keyEqualFunc key node.key = true) : ht.Matches key node := by
  have hash : ht.hashFunc = hashFunc := congrArg Prod.fst funcs
  refine ⟨?_, ?_⟩
  · simp only [hashed, hashValue, hash, laws.hash_eq same]
  · rw [keyEqual_eq funcs]
    exact laws.keyEquality.symm same

theorem split_of_match (laws : KeyLaws hashFunc keyEqualFunc)
    (funcs : ht.funcs = (hashFunc, keyEqualFunc, keyDestroyFunc, valueDestroyFunc))
    {map : KeyedMap K V (equalOf keyEqualFunc)} (represents : (ht.stored.map pair).Perm map.entries)
    {node : HashNode K V} {rest : List (HashNode K V)} {key : K} (split : ht.stored.Perm (node :: rest))
    (found : ht.Matches key node) :
    map.entries.Perm (pair node :: rest.map pair) ∧ equalOf keyEqualFunc key (pair node).1 = true := by
  refine ⟨represents.symm.trans (split.map pair), ?_⟩
  have same := found.2
  rw [keyEqual_eq funcs] at same
  exact laws.keyEquality.symm same

theorem absent_of_miss (laws : KeyLaws hashFunc keyEqualFunc)
    (funcs : ht.funcs = (hashFunc, keyEqualFunc, keyDestroyFunc, valueDestroyFunc))
    (wellFormed : ht.WellFormed) (hashed : ∀ node ∈ ht.stored, node.keyHash = ht.hashValue node.key)
    {map : KeyedMap K V (equalOf keyEqualFunc)} (represents : (ht.stored.map pair).Perm map.entries)
    {key : K} (misses : ht.Misses key) : map.Absent key := by
  intro entry member
  obtain ⟨node, inStored, rfl⟩ := List.mem_map.mp (represents.mem_iff.mpr member)
  by_contra equalled
  exact misses.not_matches wellFormed.chained node inStored
    (matches_of_equal laws funcs (hashed node inStored) (Bool.of_not_eq_false equalled))

omit [DecidableEq K] in
theorem foreach_eq_foldl {σ : Type} (ht : HashTable K V) (visitor : K → V → σ → σ) (data : σ) :
    ht.foreach visitor data =
      (ht.stored.map pair).foldl (fun data entry => visitor entry.1 entry.2 data) data := by
  rw [foreach, stored, List.foldl_map, List.foldl_filter]
  rfl

/-- What a visitor sees that collects its arguments. -/
def visited (ht : HashTable K V) : List (K × V) :=
  ht.foreach (fun key value seen => seen ++ [(key, value)]) []

omit [DecidableEq K] in
theorem visited_eq (ht : HashTable K V) : ht.visited = ht.stored.map pair := by
  rw [visited, foreach_eq_foldl, List.foldl_append_eq_append, List.nil_append,
    ← List.flatMap_def, List.flatMap_singleton']

end Stored

/-- The value most recently inserted for an equal key and not removed since, given the
calls so far with the newest first. -/
def latest (equal : K → K → Bool) : List (Call K V) → K → Option V
  | [], _ => none
  | .insert stored val :: older, key => if equal stored key then some val else latest equal older key
  | .lookup _ :: older, key => latest equal older key
  | .remove gone :: older, key => if equal gone key then none else latest equal older key
  | .removeAll :: _, _ => none

variable [Pointer K] [Pointer V]

def answer (equal : K → K → Bool) (older : List (Call K V)) : Call K V → Outcome V
  | .insert _ _ => .done
  | .lookup key => .value ((latest equal older key).getD null)
  | .remove key => .removed (if (latest equal older key).isSome then 1 else 0)
  | .removeAll => .done

def answers (equal : K → K → Bool) : (older calls : List (Call K V)) → List (Outcome V)
  | _, [] => []
  | older, call :: calls => answer equal older call :: answers equal (call :: older) calls

def Call.NonNull : Call K V → Prop
  | .insert key _ => key ≠ null
  | .lookup key => key ≠ null
  | .remove key => key ≠ null
  | .removeAll => True

/-- The table stores fewer than `limit` pairs now and after each of `calls`. -/
def staysBelow (limit : Nat) (ht : HashTable K V) : List (Call K V) → Bool
  | [] => decide (ht.stored.length < limit)
  | call :: calls => decide (ht.stored.length < limit) &&
      (ht.step call).all fun (next, _) => next.staysBelow limit calls

variable {ht : HashTable K V}

/-- The table holds exactly what the calls `older` left in it. -/
structure Tracks (ht : HashTable K V) (equal : K → K → Bool) (older : List (Call K V)) : Prop where
  hashed : ∀ node ∈ ht.stored, node.keyHash = ht.hashValue node.key
  represents : ∃ map : KeyedMap K V equal, (ht.stored.map pair).Perm map.entries ∧
    ∀ key, map.lookup key = latest equal older key

section Step

variable {hashFunc : K → UInt32} {keyEqualFunc : Option (K → K → Bool)}
  {keyDestroyFunc valueDestroyFunc : Bool} {older : List (Call K V)}

theorem step_tracks (laws : KeyLaws hashFunc keyEqualFunc)
    (funcs : ht.funcs = (hashFunc, keyEqualFunc, keyDestroyFunc, valueDestroyFunc))
    (wellFormed : ht.WellFormed) (few : ht.stored.length < 2 ^ 29) {call : Call K V}
    (nonNull : call.NonNull) (tracks : ht.Tracks (equalOf keyEqualFunc) older) :
    ∃ next destroyed, ht.step call = some (next, answer (equalOf keyEqualFunc) older call, destroyed) ∧
      next.WellFormed ∧ next.funcs = ht.funcs ∧ next.Tracks (equalOf keyEqualFunc) (call :: older) := by
  have equality := laws.keyEquality
  rw [wellFormed.stored_length] at few
  obtain ⟨map, represents, meaning⟩ := tracks.represents
  cases call with
  | insert key val =>
      obtain ⟨next, destroyed, called, wellFormedNext, same, cases⟩ :=
        insert_spec val wellFormed few nonNull
      refine ⟨next, destroyed, by simp only [step, called]; rfl, wellFormedNext, same, ?_, ?_⟩
      · intro node member
        rw [hashValue_congr same]
        rcases cases with ⟨old, rest, _, before, after, _⟩ | ⟨_, after, _⟩
        · rcases List.mem_cons.mp (after.mem_iff.mp member) with rfl | kept
          · exact tracks.hashed old (before.mem_iff.mpr (.head _))
          · exact tracks.hashed node (before.mem_iff.mpr (.tail _ kept))
        · rcases List.mem_cons.mp (after.mem_iff.mp member) with rfl | kept
          · rfl
          · exact tracks.hashed node kept
      · refine ⟨map.insert key val, ?_, fun other => ?_⟩
        · rcases cases with ⟨old, rest, found, before, after, _⟩ | ⟨misses, after, _⟩
          · have split := split_of_match laws funcs represents before found
            exact (after.map pair).trans (KeyedMap.insert_of_split val equality split.1 split.2).symm
          · have absent := absent_of_miss laws funcs wellFormed tracks.hashed represents misses
            rw [KeyedMap.insert_of_absent val absent]
            exact (after.map pair).trans (represents.cons (key, val))
        · rw [KeyedMap.lookup_insert equality, meaning, latest]
  | lookup key =>
      have kept : ht.Tracks (equalOf keyEqualFunc) (.lookup key :: older) :=
        ⟨tracks.hashed, map, represents, meaning⟩
      rcases lookup_spec wellFormed nonNull with ⟨node, member, found, returned⟩ | ⟨misses, returned⟩
      · obtain ⟨left, right, parts⟩ := List.append_of_mem member
        have split := split_of_match laws funcs represents (parts ▸ List.perm_middle) found
        refine ⟨ht, [], ?_, wellFormed, rfl, kept⟩
        simp only [step, returned, answer, ← meaning, KeyedMap.lookup_of_split equality split.1 split.2]
        rfl
      · have absent := absent_of_miss laws funcs wellFormed tracks.hashed represents misses
        refine ⟨ht, [], ?_, wellFormed, rfl, kept⟩
        simp only [step, returned, answer, ← meaning, KeyedMap.lookup_of_absent absent]
        rfl
  | remove key =>
      obtain ⟨count, next, destroyed, called, wellFormedNext, same, cases⟩ :=
        remove_spec wellFormed few nonNull
      rcases cases with ⟨node, rest, found, rfl, before, after, _⟩ | ⟨misses, rfl, rfl, _⟩
      · have split := split_of_match laws funcs represents before found
        refine ⟨next, destroyed, ?_, wellFormedNext, same, ?_, map.erase key, ?_, fun other => ?_⟩
        · simp only [step, called, answer, ← meaning, KeyedMap.lookup_of_split equality split.1 split.2]
          rfl
        · intro other member
          rw [hashValue_congr same]
          exact tracks.hashed other (before.mem_iff.mpr (.tail _ (after.mem_iff.mp member)))
        · exact (after.map pair).trans (KeyedMap.erase_of_split equality split.1 split.2).symm
        · rw [KeyedMap.lookup_erase equality, meaning, latest]
      · have absent := absent_of_miss laws funcs wellFormed tracks.hashed represents misses
        refine ⟨next, destroyed, ?_, wellFormed, rfl, tracks.hashed, map.erase key, ?_, fun other => ?_⟩
        · simp only [step, called, answer, ← meaning, KeyedMap.lookup_of_absent absent]
          rfl
        · rw [KeyedMap.erase_of_absent absent]
          exact represents
        · rw [KeyedMap.lookup_erase equality, meaning, latest]
  | removeAll =>
      obtain ⟨next, called, wellFormedNext, same, empty⟩ := removeAll_spec wellFormed few
      refine ⟨next, _, by simp only [step, called]; rfl, wellFormedNext, same, ?_, .empty, ?_, fun _ => rfl⟩
      · simp [empty]
      · simp [empty, KeyedMap.empty]

theorem run_tracks (laws : KeyLaws hashFunc keyEqualFunc) (calls : List (Call K V))
    (funcs : ht.funcs = (hashFunc, keyEqualFunc, keyDestroyFunc, valueDestroyFunc))
    (wellFormed : ht.WellFormed) (few : ht.staysBelow (2 ^ 29) calls)
    (nonNull : ∀ call ∈ calls, call.NonNull) (tracks : ht.Tracks (equalOf keyEqualFunc) older) :
    ∃ last outcomes, ht.run calls = some (last, outcomes) ∧
      outcomes.map Prod.fst = answers (equalOf keyEqualFunc) older calls ∧
      last.Tracks (equalOf keyEqualFunc) (calls.reverse ++ older) := by
  induction calls generalizing ht older with
  | nil => exact ⟨ht, [], rfl, rfl, tracks⟩
  | cons call calls ih =>
      rw [staysBelow, Bool.and_eq_true, decide_eq_true_eq] at few
      obtain ⟨next, destroyed, called, wellFormedNext, same, tracksNext⟩ :=
        step_tracks laws funcs wellFormed few.1 (nonNull call (.head _)) tracks
      rw [called] at few
      obtain ⟨last, outcomes, ran, answered, tracksLast⟩ :=
        ih (same.trans funcs) wellFormedNext few.2
          (fun other member => nonNull other (.tail _ member)) tracksNext
      refine ⟨last, (answer (equalOf keyEqualFunc) older call, destroyed) :: outcomes, ?_, ?_, ?_⟩
      · simp only [run, called, ran, Option.bind_eq_bind, Option.bind_some]
        rfl
      · rw [List.map_cons, answered, answers]
      · rwa [List.reverse_cons, List.append_assoc, List.singleton_append]

end Step

/-- A table made by `hash_table_new` behaves as a finite map under every run of calls: each
call answers as the calls before it demand, and `hash_table_foreach` visits each binding
that is left exactly once. -/
theorem hash_table_is_finite_map (hashFunc : K → UInt32) (keyEqualFunc : Option (K → K → Bool))
    (keyDestroyFunc valueDestroyFunc : Bool) (laws : KeyLaws hashFunc keyEqualFunc)
    (calls : List (Call K V)) (nonNull : ∀ call ∈ calls, call.NonNull)
    {fresh : HashTable K V}
    (made : new (some hashFunc) keyEqualFunc keyDestroyFunc valueDestroyFunc = some fresh)
    (few : fresh.staysBelow (2 ^ 29) calls) :
    ∃ last outcomes, fresh.run calls = some (last, outcomes) ∧
      outcomes.map Prod.fst = answers (equalOf keyEqualFunc) [] calls ∧
      last.visited.Pairwise (fun a b => equalOf keyEqualFunc a.1 b.1 = false) ∧
      ∀ key value, latest (equalOf keyEqualFunc) calls.reverse key = some value ↔
        ∃ stored, equalOf keyEqualFunc key stored = true ∧ (stored, value) ∈ last.visited := by
  obtain ⟨_, same, wellFormed, funcs, empty⟩ :=
    new_spec (K := K) (V := V) hashFunc keyEqualFunc keyDestroyFunc valueDestroyFunc
  rw [made, Option.some.injEq] at same
  subst same
  have equality := laws.keyEquality
  have tracks : fresh.Tracks (equalOf keyEqualFunc) ([] : List (Call K V)) :=
    ⟨by simp [empty], .empty, by simp [empty, KeyedMap.empty], fun _ => rfl⟩
  obtain ⟨last, outcomes, ran, answered, tracksLast⟩ :=
    run_tracks laws calls funcs wellFormed few nonNull tracks
  rw [List.append_nil] at tracksLast
  obtain ⟨map, represents, meaning⟩ := tracksLast.represents
  refine ⟨last, outcomes, ran, answered, ?_, fun key value => ?_⟩
  all_goals rw [visited_eq]
  · have symmetric : ∀ {a b : K × V}, equalOf keyEqualFunc a.1 b.1 = false →
        equalOf keyEqualFunc b.1 a.1 = false := by
      intro a b differ
      by_contra equalled
      have := equality.symm (Bool.of_not_eq_false equalled)
      rw [differ] at this
      contradiction
    exact (represents.pairwise_iff symmetric).mpr map.distinct
  · rw [← meaning]
    constructor
    · intro bound
      rcases map.absent_or_split key with absent | ⟨entry, rest, split, same⟩
      · rw [KeyedMap.lookup_of_absent absent] at bound
        contradiction
      · rw [KeyedMap.lookup_of_split equality split same, Option.some.injEq] at bound
        exact ⟨entry.1, same, represents.mem_iff.mpr (split.mem_iff.mpr (bound ▸ .head _))⟩
    · rintro ⟨stored, same, member⟩
      have bound := KeyedMap.mem_entries_lookup equality (represents.mem_iff.mp member)
      rw [KeyedMap.lookup_congr equality same, bound]

/-- Two colliding keys, of which one is replaced and the other removed. -/
theorem hash_table_is_finite_map_collision :
    ∃ fresh last : HashTable Nat Nat, ∃ outcomes,
      new (some fun _ => 5) none false false = some fresh ∧
      fresh.run [.insert 1 10, .insert 2 20, .insert 1 11, .remove 2, .lookup 1, .lookup 2] =
        some (last, outcomes) ∧
      outcomes.map Prod.fst = [.done, .done, .done, .removed 1, .value 11, .value 0] ∧
      last.visited.Pairwise (fun a b => equalOf none a.1 b.1 = false) := by
  obtain ⟨last, outcomes, ran, answered, distinct, _⟩ := hash_table_is_finite_map (K := Nat) (V := Nat)
    (fun _ => 5) none false false ⟨nofun, nofun⟩
    [.insert 1 10, .insert 2 20, .insert 1 11, .remove 2, .lookup 1, .lookup 2]
    (by simp [Call.NonNull, null]) rfl (by decide)
  exact ⟨_, last, outcomes, rfl, ran, answered, distinct⟩

end HashTable

end Oil.Core
