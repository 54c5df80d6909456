import Mathlib.Data.List.Perm.Basic

namespace Oil.Data

/-! # Finite maps up to a key equality

A `KeyedMap` is what a keyed store means to its clients: a finite collection of
bindings, no two of which have equal keys.  Keys are compared by a Boolean
`equal`, which need not be identity.  The operations need no law of `equal` to
keep the bindings apart; their meaning in terms of `lookup` needs `KeyEquality`. -/

variable {K V : Type}

structure KeyEquality (equal : K → K → Bool) : Prop where
  refl : ∀ a, equal a a = true
  symm : ∀ {a b}, equal a b = true → equal b a = true
  trans : ∀ {a b c}, equal a b = true → equal b c = true → equal a c = true

theorem KeyEquality.ofEq {K : Type} [DecidableEq K] : KeyEquality fun a b : K => decide (a = b) where
  refl _ := decide_eq_true rfl
  symm same := decide_eq_true (of_decide_eq_true same).symm
  trans left right := decide_eq_true ((of_decide_eq_true left).trans (of_decide_eq_true right))

structure KeyedMap (K V : Type) (equal : K → K → Bool) where
  entries : List (K × V)
  distinct : entries.Pairwise fun a b => equal a.1 b.1 = false

namespace KeyedMap

variable {equal : K → K → Bool}

def empty : KeyedMap K V equal := ⟨[], .nil⟩

def lookup (map : KeyedMap K V equal) (key : K) : Option V :=
  (map.entries.find? fun entry => equal key entry.1).map Prod.snd

/-- Bind `key`.  An equal key keeps its place, and its spelling, and gets the new value. -/
def insert (map : KeyedMap K V equal) (key : K) (value : V) : KeyedMap K V equal :=
  if present : map.entries.any fun entry => equal key entry.1 then
    { entries := map.entries.map fun entry => if equal key entry.1 then (entry.1, value) else entry
      distinct := by
        have keys (entry : K × V) :
            (if equal key entry.1 then (entry.1, value) else entry).1 = entry.1 := by
          split <;> rfl
        rw [List.pairwise_map]
        simpa only [keys] using map.distinct }
  else
    { entries := (key, value) :: map.entries
      distinct := by
        refine .cons (fun entry member => ?_) map.distinct
        simp only [List.any_eq_true, not_exists, not_and, Bool.not_eq_true] at present
        exact present entry member }

def erase (map : KeyedMap K V equal) (key : K) : KeyedMap K V equal :=
  ⟨map.entries.filter fun entry => !equal key entry.1, map.distinct.filter _⟩

/-- Bind every key of `other` the way `other` has it. -/
def update (map other : KeyedMap K V equal) : KeyedMap K V equal :=
  other.entries.foldl (fun map entry => map.insert entry.1 entry.2) map

variable {map : KeyedMap K V equal} {key : K}

def Absent (map : KeyedMap K V equal) (key : K) : Prop :=
  ∀ entry ∈ map.entries, equal key entry.1 = false

theorem lookup_of_absent (absent : map.Absent key) : map.lookup key = none := by
  have missing : map.entries.find? (fun entry => equal key entry.1) = none := by
    rw [List.find?_eq_none]
    intro entry member
    simp [absent entry member]
  rw [lookup, missing, Option.map_none]

theorem insert_of_absent (value : V) (absent : map.Absent key) :
    (map.insert key value).entries = (key, value) :: map.entries := by
  have missing : ¬ (map.entries.any fun entry => equal key entry.1) = true := by
    simp only [List.any_eq_true, not_exists, not_and, Bool.not_eq_true]
    exact absent
  rw [insert, dif_neg missing]

theorem erase_of_absent (absent : map.Absent key) : (map.erase key).entries = map.entries := by
  apply List.filter_eq_self.mpr
  intro entry member
  simp [absent entry member]

section Laws

variable {entry : K × V} {rest : List (K × V)}

theorem others_differ (laws : KeyEquality equal) (split : map.entries.Perm (entry :: rest))
    (same : equal key entry.1 = true) : ∀ other ∈ rest, equal key other.1 = false := by
  have symmetric : ∀ {a b : K × V}, equal a.1 b.1 = false → equal b.1 a.1 = false := by
    intro a b differ
    by_contra equalled
    have := laws.symm (Bool.of_not_eq_false equalled)
    rw [differ] at this
    contradiction
  have apart := (List.pairwise_cons.mp ((split.pairwise_iff symmetric).mp map.distinct)).1
  intro other member
  by_contra equalled
  have := laws.trans (laws.symm same) (Bool.of_not_eq_false equalled)
  rw [apart other member] at this
  contradiction

theorem lookup_of_split (laws : KeyEquality equal) (split : map.entries.Perm (entry :: rest))
    (same : equal key entry.1 = true) : map.lookup key = some entry.2 := by
  have present : entry ∈ map.entries := split.mem_iff.mpr (.head _)
  obtain ⟨found, picked⟩ : ∃ found, map.entries.find? (fun entry => equal key entry.1) = some found :=
    Option.isSome_iff_exists.mp (List.find?_isSome.mpr ⟨entry, present, same⟩)
  have foundSame : equal key found.1 = true := by simpa using List.find?_some picked
  rcases List.mem_cons.mp (split.mem_iff.mp (List.mem_of_find?_eq_some picked)) with rfl | other
  · rw [lookup, picked, Option.map_some]
  · rw [others_differ laws split same found other] at foundSame
    contradiction

theorem insert_of_split (value : V) (laws : KeyEquality equal) (split : map.entries.Perm (entry :: rest))
    (same : equal key entry.1 = true) :
    (map.insert key value).entries.Perm ((entry.1, value) :: rest) := by
  have present : (map.entries.any fun entry => equal key entry.1) = true :=
    List.any_eq_true.mpr ⟨entry, split.mem_iff.mpr (.head _), same⟩
  have kept : rest.map (fun entry => if equal key entry.1 then (entry.1, value) else entry) = rest := by
    conv_rhs => rw [← List.map_id rest]
    apply List.map_congr_left
    intro other member
    rw [if_neg (by simp [others_differ laws split same other member])]
    rfl
  rw [insert, dif_pos present]
  refine (split.map _).trans ?_
  rw [List.map_cons, if_pos same, kept]

theorem erase_of_split (laws : KeyEquality equal) (split : map.entries.Perm (entry :: rest))
    (same : equal key entry.1 = true) : (map.erase key).entries.Perm rest := by
  refine (split.filter _).trans ?_
  rw [List.filter_cons_of_neg (by simp [same]), List.filter_eq_self.mpr]
  intro other member
  simp [others_differ laws split same other member]

theorem absent_or_split (map : KeyedMap K V equal) (key : K) :
    map.Absent key ∨ ∃ entry rest, map.entries.Perm (entry :: rest) ∧ equal key entry.1 = true := by
  by_cases absent : map.Absent key
  · exact .inl absent
  · simp only [Absent, not_forall, Bool.not_eq_false] at absent
    obtain ⟨entry, member, same⟩ := absent
    obtain ⟨left, right, parts⟩ := List.append_of_mem member
    exact .inr ⟨entry, left ++ right, parts ▸ List.perm_middle, same⟩

theorem mem_entries_lookup (laws : KeyEquality equal) {entry : K × V} (member : entry ∈ map.entries) :
    map.lookup entry.1 = some entry.2 := by
  obtain ⟨left, right, parts⟩ := List.append_of_mem member
  have split : map.entries.Perm (entry :: (left ++ right)) := parts ▸ List.perm_middle
  exact lookup_of_split laws split (laws.refl _)

theorem mem_of_lookup {K : Type} [DecidableEq K] {map : KeyedMap K V fun a b => decide (a = b)} {key : K} {value : V}
    (found : map.lookup key = some value) : (key, value) ∈ map.entries := by
  obtain ⟨entry, picked, rfl⟩ := Option.map_eq_some_iff.mp found
  obtain rfl : key = entry.1 := by simpa using List.find?_some picked
  exact List.mem_of_find?_eq_some picked

theorem lookup_congr (laws : KeyEquality equal) {other : K} (same : equal key other = true) :
    map.lookup key = map.lookup other := by
  rcases map.absent_or_split other with absent | ⟨entry, rest, split, found⟩
  · rw [lookup_of_absent absent, lookup_of_absent]
    intro entry member
    by_contra equalled
    have := laws.trans (laws.symm same) (Bool.of_not_eq_false equalled)
    rw [absent entry member] at this
    contradiction
  · rw [lookup_of_split laws split found, lookup_of_split laws split (laws.trans same found)]

theorem lookup_insert (laws : KeyEquality equal) (map : KeyedMap K V equal) (key other : K) (value : V) :
    (map.insert key value).lookup other = if equal key other then some value else map.lookup other := by
  rcases map.absent_or_split key with absent | ⟨entry, rest, split, same⟩
  · have added := insert_of_absent value absent
    by_cases hit : equal key other = true
    · have first : (map.insert key value).entries.Perm ((key, value) :: map.entries) := added ▸ .refl _
      rw [if_pos hit, lookup_of_split laws first (laws.symm hit)]
    · have differs : ¬ equal other (key, value).1 = true := fun found => hit (laws.symm found)
      rw [if_neg hit, lookup, lookup, added, List.find?_cons_of_neg (by simpa using differs)]
  · have replaced := insert_of_split value laws split same
    by_cases hit : equal key other = true
    · rw [if_pos hit, lookup_of_split laws replaced (laws.trans (laws.symm hit) same)]
    · rw [if_neg hit]
      rcases map.absent_or_split other with absent | ⟨otherEntry, _, otherSplit, otherSame⟩
      · rw [lookup_of_absent absent, lookup_of_absent]
        intro found member
        rcases List.mem_cons.mp (replaced.mem_iff.mp member) with rfl | kept
        · exact absent entry (split.mem_iff.mpr (.head _))
        · exact absent found (split.mem_iff.mpr (.tail _ kept))
      · have inRest : otherEntry ∈ rest := by
          rcases List.mem_cons.mp (split.mem_iff.mp (otherSplit.mem_iff.mpr (.head _))) with rfl | kept
          · exact absurd (laws.trans same (laws.symm otherSame)) hit
          · exact kept
        have bound := mem_entries_lookup laws (replaced.mem_iff.mpr (.tail _ inRest))
        rw [lookup_of_split laws otherSplit otherSame, lookup_congr laws otherSame, bound]

theorem lookup_erase (laws : KeyEquality equal) (map : KeyedMap K V equal) (key other : K) :
    (map.erase key).lookup other = if equal key other then none else map.lookup other := by
  by_cases hit : equal key other = true
  · rw [if_pos hit, lookup_of_absent]
    intro entry member
    obtain ⟨_, kept⟩ := List.mem_filter.mp member
    by_contra equalled
    simp [laws.trans hit (Bool.of_not_eq_false equalled)] at kept
  · rw [if_neg hit]
    rcases map.absent_or_split other with absent | ⟨entry, rest, split, same⟩
    · rw [lookup_of_absent absent, lookup_of_absent]
      exact fun entry member => absent entry (List.mem_of_mem_filter member)
    · have kept : entry ∈ (map.erase key).entries := by
        refine List.mem_filter.mpr ⟨split.mem_iff.mpr (.head _), ?_⟩
        have differs : ¬ equal key entry.1 = true :=
          fun found => hit (laws.trans found (laws.symm same))
        simpa using differs
      rw [lookup_of_split laws split same, lookup_congr laws same, mem_entries_lookup laws kept]

theorem lookup_foldl_insert (laws : KeyEquality equal) (entries : List (K × V))
    (distinct : entries.Pairwise fun a b => equal a.1 b.1 = false) (map : KeyedMap K V equal) (key : K) :
    (entries.foldl (fun map entry => map.insert entry.1 entry.2) map).lookup key =
      ((⟨entries, distinct⟩ : KeyedMap K V equal).lookup key).or (map.lookup key) := by
  induction entries generalizing map with
  | nil => rfl
  | cons entry entries ih =>
      obtain ⟨apart, distinctRest⟩ := List.pairwise_cons.mp distinct
      rw [List.foldl_cons, ih distinctRest, lookup_insert laws]
      by_cases hit : equal entry.1 key = true
      · have behind : (⟨entries, distinctRest⟩ : KeyedMap K V equal).Absent key := by
          intro other member
          by_contra equalled
          have := laws.trans hit (Bool.of_not_eq_false equalled)
          rw [apart other member] at this
          contradiction
        rw [if_pos hit, lookup_of_absent behind, Option.none_or, lookup,
          List.find?_cons_of_pos (by simpa using laws.symm hit)]
        rfl
      · have differs : ¬ equal key entry.1 = true := fun same => hit (laws.symm same)
        rw [if_neg hit]
        conv_rhs => rw [lookup, List.find?_cons_of_neg (by simpa using differs)]
        rfl

theorem lookup_update (laws : KeyEquality equal) (map other : KeyedMap K V equal) (key : K) :
    (map.update other).lookup key = (other.lookup key).or (map.lookup key) :=
  lookup_foldl_insert laws other.entries other.distinct map key

end Laws

end KeyedMap

end Oil.Data
