import Oil.Core.Class.Operations

namespace Oil.Core

open Oil.Data

namespace OilClass

variable {F D : Type} {cls next : OilClass F D} {heap : Heap F} {implName : String} {func : F}
  {flags count : Nat}

/-- Everything an addition can do. -/
theorem add_cases (wellFormed : cls.WellFormed)
    (called : cls.addImplement heap (some implName) (some func) flags = some next) :
    (∃ i old, (cls.place implName).1 = some i ∧ cls.occupied[i]? = some old ∧
      old.name = some implName ∧
      next = { cls with impls := cls.impls.set i ⟨some implName, func, flags⟩ }) ∨
    (∃ i old, (cls.place implName).1 = some i ∧ cls.occupied[i]? = some old ∧ old.name = none ∧
      (∀ entry ∈ cls.occupied, entry.name ≠ some implName) ∧
      next = { cls with nImpls := cls.nImpls + 1,
                        impls := cls.impls.set i ⟨some implName, func, flags⟩ }) ∨
    ((cls.place implName).1 = none ∧ (∀ entry ∈ cls.occupied, entry.named = true) ∧
      (∀ entry ∈ cls.occupied, entry.name ≠ some implName) ∧ ∃ impls block,
      next = { cls with impls, block, nImpls := cls.nImpls + 1, nOccupied := cls.nOccupied + 1,
                        nAlloc := oilRoof (cls.nImpls + 1) } ∧
      impls.length = oilRoof (cls.nImpls + 1) ∧
      impls.take (cls.nOccupied + 1) = cls.occupied ++ [⟨some implName, func, flags⟩] ∧
      (block = cls.block ∧ (cls.nAlloc = oilRoof (cls.nImpls + 1) ∨
          heap.realloc (oilRoof (cls.nImpls + 1)) = .inPlace) ∨
        block = cls.block + 1 ∧ cls.nAlloc ≠ oilRoof (cls.nImpls + 1) ∧
          heap.realloc (oilRoof (cls.nImpls + 1)) = .moves)) := by
  rw [addImplement] at called
  rcases place_cases wellFormed implName with
    ⟨i, old, placed, found, hit⟩ | ⟨i, old, placed, found, hole, absent⟩ | ⟨placed, full, absent⟩
  · left
    have earlier : i ≠ cls.nOccupied := Nat.ne_of_lt (occupied_getElem? found).1
    simp only [placed, earlier, ↓reduceIte, Option.some.injEq] at called
    exact ⟨i, old, by rw [placed], found, hit, called.symm⟩
  · right; left
    simp only [placed, ↓reduceIte, Option.some.injEq] at called
    exact ⟨i, old, by rw [placed], found, hole, absent, called.symm⟩
  · right; right
    obtain ⟨same, tight⟩ := wellFormed.full full
    have within : cls.nOccupied ≤ cls.impls.length := wellFormed.length ▸ wellFormed.occupied_le
    have enough : cls.nImpls + 1 ≤ oilRoof (cls.nImpls + 1) := le_oilRoof _
    simp only [placed, Option.bind_eq_bind, Option.bind_eq_some_iff, Option.some.injEq] at called
    obtain ⟨resized, resizing, rfl⟩ := called
    refine ⟨by rw [placed], full, absent, ?_⟩
    have written {impls : List (OilImplement F)} (length : impls.length = oilRoof (cls.nImpls + 1))
        (front : impls.take cls.nImpls = cls.namedImpls) (entry : OilImplement F) :
        (impls.set cls.nImpls entry).take (cls.nOccupied + 1) = cls.occupied ++ [entry] := by
      rw [tight, List.take_add_one, List.take_set_of_le (Nat.le_refl _), front, same,
        List.getElem?_set_self (by omega)]
      rfl
    rcases resize_cases within wellFormed.count (by omega) resizing with
      ⟨unchanged, rfl⟩ | ⟨differs, impls, block, rfl, length, front, answer⟩
    · have front : resized.impls.take resized.nImpls = resized.namedImpls := by
        rw [← tight, same]
        rfl
      refine ⟨_, resized.block, ?_, ?_, written (wellFormed.length.trans unchanged) front _,
        .inl ⟨rfl, .inl unchanged⟩⟩
      · rw [← unchanged]
        rfl
      · rw [List.length_set, wellFormed.length, unchanged]
    · refine ⟨_, block, ?_, ?_, written length front _, ?_⟩
      · rw [tight]
        rfl
      · rw [List.length_set, length]
      · rcases answer with ⟨inPlace, same⟩ | ⟨moves, other⟩
        · exact .inl ⟨same, .inr inPlace⟩
        · exact .inr ⟨other, differs, moves⟩

theorem WellFormed.others_length {i : Nat} {old : OilImplement F} (wellFormed : cls.WellFormed)
    (found : cls.occupied[i]? = some old) (hit : old.name = some implName) :
    (cls.others implName).length + 1 = cls.nImpls := by
  obtain ⟨left, right, parts, others, _⟩ := wellFormed.split found hit old
  rw [← wellFormed.count, parts, others, List.length_append, List.length_append, List.length_cons, Nat.add_assoc]

/-- Emptying the entry of a name leaves the implements of other names registered. -/
theorem WellFormed.namedImpls_emptied {i : Nat} {old : OilImplement F} (wellFormed : cls.WellFormed)
    (found : cls.occupied[i]? = some old) (hit : old.name = some implName) (nImpls : Nat) :
    namedImpls { cls with impls := cls.impls.set i { old with name := none }, nImpls } = cls.others implName := by
  obtain ⟨left, right, _, others, remaining⟩ := wellFormed.split found hit { old with name := none }
  rw [namedImpls_set, remaining, others, List.filter_cons_of_neg (by simp [OilImplement.named]), List.filter_nil,
    List.append_nil]

/-- Everything a removal can do. -/
theorem remove_cases (wellFormed : cls.WellFormed)
    (called : cls.removeImplement heap (some implName) = some (count, next)) :
    (cls.find implName = none ∧ (∀ entry ∈ cls.occupied, entry.name ≠ some implName) ∧
      count = 0 ∧ next = cls) ∨
    ∃ i old, cls.find implName = some i ∧ cls.occupied[i]? = some old ∧ old.name = some implName ∧
      count = 1 ∧
      ((cls.nAlloc = oilRoof (cls.nImpls - 1) ∧
          next = { cls with impls := cls.impls.set i { old with name := none },
                            nImpls := cls.nImpls - 1 }) ∨
        (cls.nAlloc ≠ oilRoof (cls.nImpls - 1) ∧ ∃ impls block,
          next = { cls with impls, block, nImpls := cls.nImpls - 1, nOccupied := cls.nImpls - 1,
                            nAlloc := oilRoof (cls.nImpls - 1) } ∧
          impls.length = oilRoof (cls.nImpls - 1) ∧
          impls.take (cls.nImpls - 1) = cls.others implName ∧
          (heap.realloc (oilRoof (cls.nImpls - 1)) = .inPlace ∧ block = cls.block ∨
            heap.realloc (oilRoof (cls.nImpls - 1)) = .moves ∧ block = cls.block + 1))) := by
  rw [removeImplement] at called
  rcases find_cases cls implName with ⟨i, old, searched, found, hit⟩ | ⟨searched, absent⟩
  · right
    have within : cls.nOccupied ≤ cls.impls.length := wellFormed.length ▸ wellFormed.occupied_le
    obtain ⟨_, inImpls⟩ := occupied_getElem? found
    have emptied : (cls.impls.modify i fun entry => { entry with name := none }) =
        cls.impls.set i { old with name := none } := by
      rw [List.modify_eq_set_getElem?, inImpls]
      rfl
    have length := wellFormed.others_length found hit
    simp only [searched, emptied, Option.bind_eq_bind, Option.bind_eq_some_iff, Option.some.injEq,
      Prod.mk.injEq] at called
    obtain ⟨resized, resizing, rfl, rfl⟩ := called
    refine ⟨i, old, searched, found, hit, rfl, ?_⟩
    have registered := wellFormed.namedImpls_emptied found hit (cls.nImpls - 1)
    rcases resize_cases (by simpa using within) (by
        rw [registered]
        dsimp only
        omega) (le_oilRoof _) resizing with
      ⟨unchanged, rfl⟩ | ⟨differs, impls, block, rfl, length, front, answer⟩
    · exact .inl ⟨unchanged, rfl⟩
    · exact .inr ⟨differs, impls, block, rfl, length, front.trans registered, answer⟩
  · left
    simp only [searched, Option.some.injEq, Prod.mk.injEq] at called
    exact ⟨searched, absent, called.1.symm, called.2.symm⟩

theorem distinct_of_perm (wellFormed : cls.WellFormed) {entry : OilImplement F} {entries : List (OilImplement F)}
    (called : entry.name = some implName) (added : entries.Perm (entry :: cls.others implName)) :
    entries.Pairwise fun a b => a.name ≠ b.name := by
  refine (added.pairwise_iff fun differ => differ.symm).mpr (.cons ?_ (wellFormed.distinct.filter _))
  intro other member
  have differs := (List.mem_filter.mp member).2
  rw [called]
  simpa using Ne.symm (by simpa using differs : other.name ≠ some implName)

theorem add_spec (wellFormed : cls.WellFormed)
    (called : cls.addImplement heap (some implName) (some func) flags = some next) :
    next.WellFormed ∧
      next.namedImpls.Perm (⟨some implName, func, flags⟩ :: cls.others implName) := by
  obtain ⟨roof, impls_le, occupied_le, length, count, distinct⟩ := wellFormed
  have wellFormed : cls.WellFormed := ⟨roof, impls_le, occupied_le, length, count, distinct⟩
  rcases add_cases wellFormed called with
    ⟨i, old, _, found, hit, rfl⟩ | ⟨i, old, _, found, hole, absent, rfl⟩ |
      ⟨_, full, absent, impls, block, rfl, lengthNext, front, _⟩
  · obtain ⟨left, right, parts, others, written⟩ :=
      wellFormed.split found hit ⟨some implName, func, flags⟩
    have registered : namedImpls { cls with impls := cls.impls.set i ⟨some implName, func, flags⟩ } =
        left ++ ⟨some implName, func, flags⟩ :: right := by
      rw [namedImpls_set, written, List.filter_cons_of_pos rfl, List.append_assoc]
      rfl
    have added := List.perm_middle.trans (others ▸ List.Perm.refl _ :
      (⟨some implName, func, flags⟩ :: (left ++ right)).Perm (⟨some implName, func, flags⟩ :: cls.others implName))
    rw [← registered] at added
    refine ⟨⟨roof, impls_le, occupied_le, by simpa using length, ?_, distinct_of_perm wellFormed rfl added⟩, added⟩
    rw [registered, ← count, parts, List.length_append, List.length_append, List.length_cons, List.length_cons]
  · have room := wellFormed.room found hole
    have added : (namedImpls { cls with nImpls := cls.nImpls + 1,
                                        impls := cls.impls.set i ⟨some implName, func, flags⟩ }).Perm
        (⟨some implName, func, flags⟩ :: cls.others implName) := by
      rw [others_of_absent absent, namedImpls_set]
      exact filter_set_add _ found (by simp [OilImplement.named, hole]) rfl
    refine ⟨⟨?_, room, occupied_le, by simpa using length, ?_, distinct_of_perm wellFormed rfl added⟩, added⟩
    · rw [oilRoof_succ_of_lt (by omega), roof]
    · rw [added.length_eq, List.length_cons, others_of_absent absent, count]
  · obtain ⟨same, tight⟩ := wellFormed.full full
    have registered : namedImpls { cls with
          impls, block, nImpls := cls.nImpls + 1, nOccupied := cls.nOccupied + 1,
          nAlloc := oilRoof (cls.nImpls + 1) } = cls.namedImpls ++ [⟨some implName, func, flags⟩] := by
      rw [namedImpls, occupied, front, List.filter_append]
      rfl
    have added := List.perm_append_singleton (⟨some implName, func, flags⟩ : OilImplement F) cls.namedImpls
    rw [← registered, ← others_of_absent absent] at added
    refine ⟨⟨rfl, Nat.succ_le_succ impls_le, ?_, lengthNext, ?_, distinct_of_perm wellFormed rfl added⟩, added⟩
    · rw [tight]
      exact le_oilRoof _
    · rw [registered, List.length_append, count, List.length_singleton]

theorem remove_spec (wellFormed : cls.WellFormed)
    (called : cls.removeImplement heap (some implName) = some (count, next)) :
    next.WellFormed ∧ next.namedImpls = cls.others implName ∧
      (count = 1 ↔ ∃ entry ∈ cls.namedImpls, entry.name = some implName) := by
  obtain ⟨roof, impls_le, occupied_le, length, counted, distinct⟩ := wellFormed
  have wellFormed : cls.WellFormed := ⟨roof, impls_le, occupied_le, length, counted, distinct⟩
  rcases remove_cases wellFormed called with
    ⟨_, absent, rfl, rfl⟩ | ⟨i, old, _, found, hit, rfl, change⟩
  · refine ⟨wellFormed, (others_of_absent absent).symm, ?_⟩
    simp only [Nat.zero_ne_one, false_iff, not_exists, not_and]
    exact fun entry member => absent entry (mem_namedImpls.mp member).1
  · have others := wellFormed.others_length found hit
    have fewer : (cls.others implName).length = cls.nImpls - 1 := by omega
    have distinctOthers : (cls.others implName).Pairwise fun a b => a.name ≠ b.name := distinct.filter _
    have present : (1 = 1 ↔ ∃ entry ∈ cls.namedImpls, entry.name = some implName) :=
      ⟨fun _ => ⟨old, mem_namedImpls.mpr ⟨List.mem_of_getElem? found, named_of_name hit⟩, hit⟩, fun _ => rfl⟩
    rcases change with ⟨unchanged, rfl⟩ | ⟨_, impls, block, rfl, lengthNext, front, _⟩
    · have registered := wellFormed.namedImpls_emptied found hit (cls.nImpls - 1)
      refine ⟨⟨unchanged, ?_, occupied_le, by simpa using length, by rw [registered, fewer],
        registered ▸ distinctOthers⟩, registered, present⟩
      dsimp only
      omega
    · have registered : namedImpls { cls with
            impls, block, nImpls := cls.nImpls - 1, nOccupied := cls.nImpls - 1,
            nAlloc := oilRoof (cls.nImpls - 1) } = cls.others implName := by
        rw [namedImpls, occupied, front]
        apply List.filter_eq_self.mpr
        intro entry member
        exact (mem_namedImpls.mp (List.mem_of_mem_filter member)).2
      exact ⟨⟨rfl, Nat.le_refl _, le_oilRoof _, lengthNext, by rw [registered, fewer],
        registered ▸ distinctOthers⟩, registered, present⟩

section Data

variable {call : Call F} {newLen : Nat}

theorem resize_data (resized : cls.resizeImplArray heap newLen = some next) : next.data = cls.data := by
  have vacuumed : (if cls.nOccupied ≠ cls.nImpls then cls.vacummImplArray else cls).data = cls.data := by
    split <;> rfl
  rw [resizeImplArray] at resized
  split at resized
  case isFalse => exact congrArg data (Option.some.inj resized).symm
  case isTrue =>
    dsimp only at resized
    split at resized
    · contradiction
    all_goals exact (congrArg data (Option.some.inj resized).symm).trans vacuumed

theorem step_data (called : cls.step heap call = some next) : next.data = cls.data := by
  cases call with
  | add implName func flags =>
      rw [step, addImplement.eq_def] at called
      split at called
      case h_2 => exact congrArg data (Option.some.inj called).symm
      case h_1 =>
        dsimp only at called
        split at called
        · rw [← Option.some.inj called]
        · obtain ⟨resized, resizing, same⟩ := Option.bind_eq_some_iff.mp called
          rw [← Option.some.inj same]
          have kept := resize_data resizing
          exact kept
  | remove implName =>
      obtain ⟨⟨count, removed⟩, removing, rfl⟩ := Option.map_eq_some_iff.mp called
      rw [removeImplement.eq_def] at removing
      split at removing
      · obtain ⟨_, rfl⟩ := Prod.mk.inj (Option.some.inj removing)
        rfl
      · split at removing
        · obtain ⟨_, rfl⟩ := Prod.mk.inj (Option.some.inj removing)
          rfl
        · obtain ⟨resized, resizing, same⟩ := Option.bind_eq_some_iff.mp removing
          obtain ⟨_, rfl⟩ := Prod.mk.inj (Option.some.inj same)
          have kept := resize_data resizing
          exact kept
  | clear =>
      rw [← Option.some.inj called]
      rfl
  | activate implName =>
      rw [← Option.some.inj called, activateImplement.eq_def]
      split
      · rfl
      · split
        · rfl
        · split <;> rfl

end Data

end OilClass

end Oil.Core
