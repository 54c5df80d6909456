import Oil.Core.Class.Steps
import Oil.Data.KeyedMap

namespace Oil.Core

open Oil.Data

variable {F D : Type}

/-- What a class is for: a finite map from implement names to functions and flags. -/
abbrev Implements (F : Type) := KeyedMap String (F × Nat) fun a b => decide (a = b)

namespace OilImplement

def binding (entry : OilImplement F) : String × F × Nat := (entry.name.getD "", entry.impl, entry.flags)

theorem name_of_named {entry : OilImplement F} (named : entry.named = true) :
    entry.name = some entry.binding.1 := by
  obtain ⟨name, called⟩ := Option.isSome_iff_exists.mp named
  simp only [binding, called, Option.getD_some]

end OilImplement

theorem foreachLoop_continues {σ : Type} {visitor : String → F → Nat → σ → Bool × σ}
    (continues : ∀ name impl flags data, (visitor name impl flags data).1 = false)
    (entries : List (OilImplement F)) (i : Nat) (data : σ) :
    foreachLoop visitor entries i data =
      (none, ((entries.filter OilImplement.named).map OilImplement.binding).foldl
        (fun data entry => (visitor entry.1 entry.2.1 entry.2.2 data).2) data) := by
  induction entries generalizing i data with
  | nil => rfl
  | cons impl rest ih =>
      cases called : impl.name with
      | none =>
          rw [List.filter_cons_of_neg (by simp [OilImplement.named, called])]
          simp [foreachLoop, called, ih]
      | some name =>
          rw [List.filter_cons_of_pos (by simp [OilImplement.named, called])]
          simp [foreachLoop, called, continues, ih, OilImplement.binding]

namespace OilClass

/-- The function and flags most recently added for a name and not removed since, given the
calls so far with the newest first. -/
def latest : List (Call F) → String → Option (F × Nat)
  | [], _ => none
  | .add (some added) (some func) flags :: older, implName =>
      if added = implName then some (func, flags) else latest older implName
  | .add _ _ _ :: older, implName => latest older implName
  | .remove (some gone) :: older, implName => if gone = implName then none else latest older implName
  | .remove none :: older, implName => latest older implName
  | .clear :: _, _ => none
  | .activate _ :: older, implName => latest older implName

variable {cls next : OilClass F D} {heap : Heap F} {older : List (Call F)}

def bindings (cls : OilClass F D) : List (String × F × Nat) := cls.namedImpls.map OilImplement.binding

/-- The class holds exactly what the calls `older` left in it. -/
structure Tracks (cls : OilClass F D) (older : List (Call F)) : Prop where
  wellFormed : cls.WellFormed
  represents : ∃ map : Implements F, cls.bindings.Perm map.entries ∧
    ∀ implName, map.lookup implName = latest older implName

theorem registered_tracks (clsName : String) (refFunc : F) :
    (registered clsName refFunc : OilClass F D).Tracks [] :=
  ⟨⟨oilRoof_zero.symm, Nat.le_refl 0, Nat.le_refl 0, rfl, rfl, .nil⟩, .empty, .nil, fun _ => rfl⟩

theorem bindings_others (cls : OilClass F D) (implName : String) :
    (cls.others implName).map OilImplement.binding =
      cls.bindings.filter fun entry => !decide (implName = entry.1) := by
  rw [bindings, List.filter_map, others]
  congr 1
  apply List.filter_congr
  intro entry member
  rw [OilImplement.name_of_named (mem_namedImpls.mp member).2]
  simp [eq_comm]

theorem insert_perm (map : Implements F) (implName : String) (value : F × Nat) :
    (map.insert implName value).entries.Perm ((implName, value) :: (map.erase implName).entries) := by
  rcases map.absent_or_split implName with absent | ⟨entry, rest, split, same⟩
  · rw [KeyedMap.insert_of_absent value absent, KeyedMap.erase_of_absent absent]
  · have erased := KeyedMap.erase_of_split .ofEq split same
    have inserted := KeyedMap.insert_of_split value .ofEq split same
    rw [← of_decide_eq_true same] at inserted
    exact inserted.trans (erased.symm.cons _)

theorem step_tracks {call : Call F} (called : cls.step heap call = some next)
    (tracks : cls.Tracks older) : next.Tracks (call :: older) := by
  obtain ⟨wellFormed, map, represents, meaning⟩ := tracks
  have ⟨roof, impls_le, occupied_le, length, count, distinct⟩ := wellFormed
  have left (implName : String) : ((cls.others implName).map OilImplement.binding).Perm
      (map.erase implName).entries := by
    rw [bindings_others]
    exact represents.filter _
  cases call with
  | add implName func flags =>
      cases implName with
      | none =>
          obtain rfl : cls = next := by simpa [step, addImplement] using called
          exact ⟨wellFormed, map, represents, meaning⟩
      | some implName =>
        cases func with
        | none =>
            obtain rfl : cls = next := by simpa [step, addImplement] using called
            exact ⟨wellFormed, map, represents, meaning⟩
        | some func =>
            obtain ⟨wellFormedNext, added⟩ := add_spec wellFormed called
            refine ⟨wellFormedNext, map.insert implName (func, flags), ?_, fun other => ?_⟩
            · exact (added.map OilImplement.binding).trans
                (((left implName).cons _).trans (insert_perm map implName (func, flags)).symm)
            · rw [KeyedMap.lookup_insert .ofEq, meaning]
              simp [latest]
  | remove implName =>
      cases implName with
      | none =>
          obtain rfl : cls = next := by simpa [step, removeImplement] using called
          exact ⟨wellFormed, map, represents, meaning⟩
      | some implName =>
          rw [step, Option.map_eq_some_iff] at called
          obtain ⟨⟨count, _⟩, removed, rfl⟩ := called
          obtain ⟨wellFormedNext, remaining, _⟩ := remove_spec wellFormed removed
          refine ⟨wellFormedNext, map.erase implName, ?_, fun other => ?_⟩
          · rw [bindings, remaining]
            exact left implName
          · rw [KeyedMap.lookup_erase .ofEq, meaning]
            simp [latest]
  | clear =>
      obtain rfl : cls.clearImplementsInternal = next := Option.some.inj called
      exact ⟨⟨oilRoof_zero.symm, Nat.le_refl 0, Nat.le_refl 0, rfl, rfl, .nil⟩, .empty, .nil, fun _ => rfl⟩
  | activate implName =>
      have kept : ∃ slot activeImpl, next = { cls with slot, activeImpl } := by
        obtain rfl := Option.some.inj called
        unfold activateImplement
        repeat' split
        all_goals exact ⟨_, _, rfl⟩
      obtain ⟨slot, activeImpl, rfl⟩ := kept
      exact ⟨⟨roof, impls_le, occupied_le, length, count, distinct⟩, map, represents, meaning⟩

theorem run_tracks (calls : List (Heap F × Call F)) (ran : cls.run calls = some next)
    (tracks : cls.Tracks older) : next.Tracks ((calls.map Prod.snd).reverse ++ older) := by
  induction calls generalizing cls older with
  | nil =>
      obtain rfl := Option.some.inj ran
      exact tracks
  | cons first calls ih =>
      obtain ⟨heap, call⟩ := first
      rw [run, Option.bind_eq_bind, Option.bind_eq_some_iff] at ran
      obtain ⟨after, called, ran⟩ := ran
      have tracksNext := ih ran (step_tracks called tracks)
      rwa [List.map_cons, List.reverse_cons, List.append_assoc, List.singleton_append]

theorem implementsGet_eq {map : Implements F} (represents : cls.bindings.Perm map.entries)
    (implName : String) : cls.implementsGet (some implName) = map.lookup implName := by
  rw [implementsGet]
  rcases find_cases cls implName with ⟨i, entry, searched, found, hit⟩ | ⟨searched, absent⟩
  · have member : (implName, entry.impl, entry.flags) ∈ cls.bindings := by
      refine List.mem_map.mpr ⟨entry, mem_namedImpls.mpr ⟨List.mem_of_getElem? found, named_of_name hit⟩, ?_⟩
      simp only [OilImplement.binding, hit, Option.getD_some]
    have bound := KeyedMap.mem_entries_lookup .ofEq (represents.mem_iff.mp member)
    simp only [Option.bind_eq_bind, Option.bind_some, searched, (occupied_getElem? found).2, bound]
    rfl
  · have missing : map.Absent implName := by
      intro binding member
      obtain ⟨entry, registered, rfl⟩ := List.mem_map.mp (represents.mem_iff.mpr member)
      obtain ⟨inOccupied, named⟩ := mem_namedImpls.mp registered
      rw [decide_eq_false_iff_not]
      intro same
      exact absent entry inOccupied (same ▸ OilImplement.name_of_named named)
    simp only [Option.bind_eq_bind, Option.bind_some, searched, Option.bind_none,
      KeyedMap.lookup_of_absent missing]

theorem WellFormed.distinctNames (wellFormed : cls.WellFormed) :
    cls.bindings.Pairwise fun a b => decide (a.1 = b.1) = false := by
  rw [bindings, List.pairwise_map]
  refine wellFormed.distinct.imp_of_mem fun {a b} inA inB differ => ?_
  rw [decide_eq_false_iff_not]
  intro same
  rw [OilImplement.name_of_named (mem_namedImpls.mp inA).2,
    OilImplement.name_of_named (mem_namedImpls.mp inB).2] at differ
  exact differ (congrArg some same)

theorem WellFormed.implementsGet (wellFormed : cls.WellFormed) {i : Nat} {entry : OilImplement F}
    {name : String} (found : cls.occupied[i]? = some entry) (called : entry.name = some name) :
    cls.implementsGet (some name) = some (entry.impl, entry.flags) := by
  have member : (name, entry.impl, entry.flags) ∈ cls.bindings := by
    refine List.mem_map.mpr ⟨entry, mem_namedImpls.mpr ⟨List.mem_of_getElem? found, named_of_name called⟩, ?_⟩
    simp only [OilImplement.binding, called, Option.getD_some]
  have represents : cls.bindings.Perm (⟨cls.bindings, wellFormed.distinctNames⟩ : Implements F).entries := .refl _
  rw [implementsGet_eq represents]
  exact KeyedMap.mem_entries_lookup .ofEq (represents.mem_iff.mp member)

/-- Whatever calls a class has seen, its counters fit its array, and its entries are the
finite map these calls describe: a name is bound to what was last added for it, and a
visitor that never stops sees each binding exactly once. -/
theorem oil_class_is_finite_map (clsName : String) (refFunc : F) (calls : List (Heap F × Call F))
    {last : OilClass F D} (ran : (registered clsName refFunc).run calls = some last) :
    last.nAlloc = oilRoof last.nImpls ∧ last.nImpls ≤ last.nOccupied ∧ last.nOccupied ≤ last.nAlloc ∧
    last.nImpls = last.occupied.countP OilImplement.named ∧
    (last.occupied.filterMap (·.name)).Nodup ∧
    (∀ implName, last.implementsGet (some implName) = latest (calls.map Prod.snd).reverse implName) ∧
    ∃ bindings : List (String × F × Nat), (bindings.map Prod.fst).Nodup ∧
      (∀ implName value, (implName, value) ∈ bindings ↔
        latest (calls.map Prod.snd).reverse implName = some value) ∧
      ∀ {σ : Type} (visitor : String → F → Nat → σ → Bool × σ) (data : σ),
        (∀ name impl flags data, (visitor name impl flags data).1 = false) →
        last.implementsForeach visitor data = (none,
          bindings.foldl (fun data entry => (visitor entry.1 entry.2.1 entry.2.2 data).2) data) := by
  have tracks := run_tracks calls ran (registered_tracks clsName refFunc)
  rw [List.append_nil] at tracks
  obtain ⟨wellFormed, map, represents, meaning⟩ := tracks
  have distinctNames : (last.bindings.map Prod.fst).Nodup := by
    rw [List.nodup_iff_pairwise_ne, List.pairwise_map]
    exact wellFormed.distinctNames.imp fun differ => of_decide_eq_false differ
  refine ⟨wellFormed.roof, wellFormed.impls_le, wellFormed.occupied_le, ?_, ?_, fun implName => ?_,
    last.bindings, distinctNames, fun implName value => ?_, fun visitor data continues => ?_⟩
  · rw [← wellFormed.count, namedImpls, List.countP_eq_length_filter]
  · rw [List.nodup_iff_pairwise_ne, List.pairwise_filterMap]
    refine (List.pairwise_filter.mp wellFormed.distinct).imp ?_
    intro a b differ name calledA other calledB same
    subst same
    exact differ (named_of_name calledA) (named_of_name calledB) (calledA.trans calledB.symm)
  · rw [implementsGet_eq represents, meaning]
  · rw [← meaning]
    constructor
    · intro member
      exact KeyedMap.mem_entries_lookup .ofEq (represents.mem_iff.mp member)
    · intro bound
      rcases map.absent_or_split implName with absent | ⟨entry, rest, split, same⟩
      · rw [KeyedMap.lookup_of_absent absent] at bound
        contradiction
      · rw [KeyedMap.lookup_of_split .ofEq split same, Option.some.injEq] at bound
        have spelled : (implName, value) = entry := Prod.ext (of_decide_eq_true same) bound.symm
        exact represents.mem_iff.mpr (split.mem_iff.mpr (spelled ▸ .head _))
  · rw [implementsForeach, foreachInternal, foreachLoop_continues continues]
    rfl

theorem oil_class_is_finite_map_vacuum :
    ∃ last : OilClass Nat Unit,
      (registered "class" 0).run
        ((show List (Call Nat) from [.add (some "a") (some 1) 0, .add (some "b") (some 2) 0,
            .add (some "c") (some 3) 0, .add (some "d") (some 4) 0, .remove (some "a")]).map
          fun call => (⟨fun _ => .moves, fun _ => ⟨none, 0, 0⟩⟩, call)) = some last ∧
      last.nAlloc = oilRoof last.nImpls ∧ last.nImpls = 3 ∧
      last.implementsGet (some "d") = some (4, 0) ∧ last.implementsGet (some "a") = none := by
  obtain ⟨last, ran⟩ : ∃ last : OilClass Nat Unit, (registered "class" 0).run
      ((show List (Call Nat) from [.add (some "a") (some 1) 0, .add (some "b") (some 2) 0,
          .add (some "c") (some 3) 0, .add (some "d") (some 4) 0, .remove (some "a")]).map
        fun call => (⟨fun _ => .moves, fun _ => ⟨none, 0, 0⟩⟩, call)) = some last :=
    Option.isSome_iff_exists.mp (by decide)
  obtain ⟨roof, _, _, count, _, reads, _⟩ := oil_class_is_finite_map "class" 0 _ ran
  refine ⟨last, ran, roof, ?_, reads "d", reads "a"⟩
  have counted := congrArg (Option.map OilClass.nImpls) ran
  exact (Option.some.inj counted).symm

end OilClass

end Oil.Core
