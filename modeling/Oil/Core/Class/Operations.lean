import Oil.Core.Class.Model
import Oil.Data.Writes

namespace Oil.Core

open Oil.Data

theorem oilRoof_zero : oilRoof 0 = 0 := by decide

theorem le_oilRoof (n : Nat) : n ≤ oilRoof n := by
  simp only [oilRoof, oilImplExtendChunk]
  omega

theorem oilRoof_succ_of_lt {n : Nat} (room : n < oilRoof n) : oilRoof (n + 1) = oilRoof n := by
  simp only [oilRoof, oilImplExtendChunk] at *
  omega

theorem oilRoof_pred_of_ne {n : Nat} (differs : oilRoof n ≠ oilRoof (n - 1)) : oilRoof (n - 1) = n - 1 := by
  simp only [oilRoof, oilImplExtendChunk] at *
  omega

namespace OilClass

variable {F D : Type} {cls next : OilClass F D} {heap : Heap F} {implName : String}

def namedImpls (cls : OilClass F D) : List (OilImplement F) := cls.occupied.filter OilImplement.named

/-- What every class satisfies between two calls. -/
structure WellFormed (cls : OilClass F D) : Prop where
  roof : cls.nAlloc = oilRoof cls.nImpls
  impls_le : cls.nImpls ≤ cls.nOccupied
  occupied_le : cls.nOccupied ≤ cls.nAlloc
  length : cls.impls.length = cls.nAlloc
  count : cls.namedImpls.length = cls.nImpls
  distinct : cls.namedImpls.Pairwise fun a b => a.name ≠ b.name

/-- The fields no operation on the implement array touches. -/
def frame (cls : OilClass F D) : String × F × F × Option ImplPointer × Option D :=
  (cls.name, cls.slot, cls.ref, cls.activeImpl, cls.data)

section Occupied

variable {i : Nat} {entry : OilImplement F}

theorem occupied_getElem? (found : cls.occupied[i]? = some entry) :
    i < cls.nOccupied ∧ cls.impls[i]? = some entry := by
  rw [occupied, List.getElem?_take] at found
  split at found
  · exact ⟨‹_›, found⟩
  · contradiction

theorem WellFormed.occupied_length (wellFormed : cls.WellFormed) :
    cls.occupied.length = cls.nOccupied := by
  rw [occupied, List.length_take, wellFormed.length]
  exact Nat.min_eq_left wellFormed.occupied_le

theorem mem_namedImpls : entry ∈ cls.namedImpls ↔ entry ∈ cls.occupied ∧ entry.named = true :=
  List.mem_filter

theorem named_of_name {name : String} (called : entry.name = some name) : entry.named = true := by
  rw [OilImplement.named, called]
  rfl

theorem WellFormed.full (wellFormed : cls.WellFormed)
    (full : ∀ entry ∈ cls.occupied, entry.named = true) :
    cls.namedImpls = cls.occupied ∧ cls.nOccupied = cls.nImpls := by
  have same : cls.namedImpls = cls.occupied := List.filter_eq_self.mpr full
  refine ⟨same, ?_⟩
  rw [← wellFormed.count, same, wellFormed.occupied_length]

theorem WellFormed.room (wellFormed : cls.WellFormed) (found : cls.occupied[i]? = some entry)
    (hole : entry.name = none) : cls.nImpls < cls.nOccupied := by
  have unnamed : ¬ entry.named = true := by simp [OilImplement.named, hole]
  have fewer : cls.namedImpls.length < cls.occupied.length :=
    List.length_filter_lt_length_iff_exists.mpr ⟨entry, List.mem_of_getElem? found, by simpa using unnamed⟩
  rwa [wellFormed.count, wellFormed.occupied_length] at fewer

end Occupied

section Searches

theorem foreachLoop_cmpImplName (entries : List (OilImplement F)) (i : Nat) :
    foreachLoop cmpImplName entries i (some implName) =
      ((entries.findIdx? fun entry => entry.name = some implName).map (· + i), some implName) := by
  induction entries generalizing i with
  | nil => rfl
  | cons impl rest ih =>
      have shift : (fun j => j + (i + 1)) = fun j => j + 1 + i := by
        funext j
        omega
      cases called : impl.name with
      | none => simp [foreachLoop, called, ih, List.findIdx?_cons, Option.map_map, Function.comp_def, shift]
      | some name =>
          by_cases same : name = implName <;>
            simp [foreachLoop, cmpImplName, called, same, ih, List.findIdx?_cons, Option.map_map,
              Function.comp_def, shift]

theorem find_cases (cls : OilClass F D) (implName : String) :
    (∃ i entry, cls.find implName = some i ∧ cls.occupied[i]? = some entry ∧
      entry.name = some implName) ∨
    (cls.find implName = none ∧ ∀ entry ∈ cls.occupied, entry.name ≠ some implName) := by
  have searched : cls.find implName =
      cls.occupied.findIdx? fun entry => entry.name = some implName := by
    rw [find, foreachInternal, foreachLoop_cmpImplName]
    simp
  rw [searched]
  cases found : cls.occupied.findIdx? fun entry => entry.name = some implName with
  | none =>
      right
      simpa [List.findIdx?_eq_none_iff] using found
  | some i =>
      left
      obtain ⟨bound, same, _⟩ := List.findIdx?_eq_some_iff_getElem.mp found
      exact ⟨i, cls.occupied[i], rfl, List.getElem?_eq_getElem bound, by simpa using same⟩

/-- Where the loop of `oil_class_add_implement` ends, started at index `i` with the choice `impl`. -/
theorem placeLoop_cases (implName : String) (entries : List (OilImplement F)) (i : Nat) (impl : Option Nat) :
    (∃ j entry, placeLoop implName entries i impl = (some (i + j), i + j) ∧ entries[j]? = some entry ∧
      entry.name = some implName) ∨
    (∃ choice, placeLoop implName entries i impl = (choice, i + entries.length) ∧
      (∀ entry ∈ entries, entry.name ≠ some implName) ∧
      ((choice = impl ∧ (impl = none → ∀ entry ∈ entries, entry.named = true)) ∨
        ∃ j entry, choice = some (i + j) ∧ entries[j]? = some entry ∧ entry.name = none)) := by
  induction entries generalizing i impl with
  | nil => exact .inr ⟨impl, rfl, nofun, .inl ⟨rfl, fun _ => nofun⟩⟩
  | cons head rest ih =>
      have shift : ∀ j, i + 1 + j = i + (j + 1) := fun j => by omega
      cases called : head.name with
      | some name =>
          by_cases same : implName = name
          · left
            exact ⟨0, head, by simp [placeLoop, called, same], rfl, same ▸ called⟩
          · have go : placeLoop implName (head :: rest) i impl = placeLoop implName rest (i + 1) impl := by
              simp [placeLoop, called, same]
            rw [go]
            rcases ih (i + 1) impl with ⟨j, entry, ended, found, hit⟩ | ⟨choice, ended, absent, reason⟩
            · exact .inl ⟨j + 1, entry, by rw [ended, shift], found, hit⟩
            · have other : head.name ≠ some implName := by simp [called, Ne.symm same]
              refine .inr ⟨choice, by rw [ended, shift, List.length_cons], List.forall_mem_cons.mpr ⟨other, absent⟩, ?_⟩
              rcases reason with ⟨kept, full⟩ | ⟨j, entry, chosen, found, hole⟩
              · exact .inl ⟨kept, fun none => List.forall_mem_cons.mpr ⟨named_of_name called, full none⟩⟩
              · exact .inr ⟨j + 1, entry, by rw [chosen, shift], found, hole⟩
      | none =>
          have go : placeLoop implName (head :: rest) i impl =
              placeLoop implName rest (i + 1) (impl.or (some i)) := by
            simp [placeLoop, called]
          rw [go]
          rcases ih (i + 1) (impl.or (some i)) with ⟨j, entry, ended, found, hit⟩ | ⟨choice, ended, absent, reason⟩
          · exact .inl ⟨j + 1, entry, by rw [ended, shift], found, hit⟩
          · have other : head.name ≠ some implName := by simp [called]
            refine .inr ⟨choice, by rw [ended, shift, List.length_cons], List.forall_mem_cons.mpr ⟨other, absent⟩, ?_⟩
            rcases reason with ⟨kept, _⟩ | ⟨j, entry, chosen, found, hole⟩
            · cases impl with
              | none => exact .inr ⟨0, head, kept, rfl, called⟩
              | some before => exact .inl ⟨kept, nofun⟩
            · exact .inr ⟨j + 1, entry, by rw [chosen, shift], found, hole⟩

theorem place_cases (wellFormed : cls.WellFormed) (implName : String) :
    (∃ i old, cls.place implName = (some i, i) ∧ cls.occupied[i]? = some old ∧
      old.name = some implName) ∨
    (∃ i old, cls.place implName = (some i, cls.nOccupied) ∧ cls.occupied[i]? = some old ∧
      old.name = none ∧ ∀ entry ∈ cls.occupied, entry.name ≠ some implName) ∨
    (cls.place implName = (none, cls.nOccupied) ∧ (∀ entry ∈ cls.occupied, entry.named = true) ∧
      ∀ entry ∈ cls.occupied, entry.name ≠ some implName) := by
  have length := wellFormed.occupied_length
  rcases placeLoop_cases implName cls.occupied 0 none with
    ⟨i, old, ended, found, hit⟩ | ⟨choice, ended, absent, ⟨rfl, full⟩ | ⟨i, old, rfl, found, hole⟩⟩
  all_goals simp only [Nat.zero_add, length] at ended
  · exact .inl ⟨i, old, ended, found, hit⟩
  · exact .inr (.inr ⟨ended, full rfl, absent⟩)
  · exact .inr (.inl ⟨i, old, ended, found, hole, absent⟩)

end Searches

def others (cls : OilClass F D) (implName : String) : List (OilImplement F) :=
  cls.namedImpls.filter fun entry => entry.name ≠ some implName

section Writes

variable {i : Nat} {old : OilImplement F} {func : F} {flags : Nat}

theorem others_of_absent (absent : ∀ entry ∈ cls.occupied, entry.name ≠ some implName) :
    cls.others implName = cls.namedImpls := by
  apply List.filter_eq_self.mpr
  intro entry member
  simpa using absent entry (mem_namedImpls.mp member).1

theorem namedImpls_set (cls : OilClass F D) (i nImpls : Nat) (entry : OilImplement F) :
    namedImpls { cls with impls := cls.impls.set i entry, nImpls } =
      (cls.occupied.set i entry).filter OilImplement.named :=
  congrArg (List.filter OilImplement.named) List.take_set

theorem WellFormed.split (wellFormed : cls.WellFormed) (found : cls.occupied[i]? = some old)
    (hit : old.name = some implName) (entry : OilImplement F) :
    ∃ left right, cls.namedImpls = left ++ old :: right ∧ cls.others implName = left ++ right ∧
      (cls.occupied.set i entry).filter OilImplement.named =
        left ++ [entry].filter OilImplement.named ++ right := by
  obtain ⟨bound, rfl⟩ := List.getElem?_eq_some_iff.mp found
  obtain ⟨left, right, whole, _, written⟩ : ∃ left right, cls.occupied = left ++ cls.occupied[i] :: right ∧
      left.length = i ∧ cls.occupied.set i entry = left ++ entry :: right := List.exists_of_set bound
  have parts : cls.namedImpls = left.filter OilImplement.named ++
      cls.occupied[i] :: right.filter OilImplement.named := by
    conv_lhs => rw [namedImpls, whole]
    rw [List.filter_append, List.filter_cons_of_pos (named_of_name hit)]
  have distinct := wellFormed.distinct
  rw [parts, List.pairwise_append, List.pairwise_cons] at distinct
  obtain ⟨_, ⟨behind, _⟩, before⟩ := distinct
  have keptLeft : ((left.filter OilImplement.named).filter fun entry => entry.name ≠ some implName) =
      left.filter OilImplement.named := by
    apply List.filter_eq_self.mpr
    intro other member
    simpa [hit] using before other member _ (.head _)
  have keptRight : ((right.filter OilImplement.named).filter fun entry => entry.name ≠ some implName) =
      right.filter OilImplement.named := by
    apply List.filter_eq_self.mpr
    intro other member
    simpa [hit] using (behind other member).symm
  refine ⟨_, _, parts, ?_, ?_⟩
  · rw [others, parts, List.filter_append, List.filter_cons_of_neg (by simp [hit]), keptLeft, keptRight]
  · rw [written, List.append_cons, List.filter_append, List.filter_append]

end Writes

section Resizing

variable {newLen : Nat}

theorem vacumm_take (within : cls.nOccupied ≤ cls.impls.length)
    (count : cls.namedImpls.length = cls.nImpls) :
    cls.vacummImplArray.impls.take cls.nImpls = cls.namedImpls := by
  have last_le : keptEnd OilImplement.named cls.impls cls.nOccupied ≤ cls.nOccupied := keptEnd_le
  have kept : (cls.impls.take (keptEnd OilImplement.named cls.impls cls.nOccupied)).filter
      OilImplement.named = cls.namedImpls := filter_take_keptEnd
  rw [vacummImplArray]
  dsimp only
  split
  · have moved := compact_take OilImplement.named (Nat.le_trans last_le within)
    rwa [kept, count] at moved
  case isFalse same =>
    have tight := Decidable.of_not_not same
    have full : ((cls.impls.take cls.nImpls).filter OilImplement.named).length =
        (cls.impls.take cls.nImpls).length := by
      rw [tight] at kept
      rw [kept, count, List.length_take, Nat.min_eq_left]
      omega
    rw [tight] at kept
    rw [← kept]
    exact (List.filter_eq_self.mpr (List.length_filter_eq_length_iff.mp full)).symm

theorem vacumm_length (within : cls.nOccupied ≤ cls.impls.length) :
    cls.vacummImplArray.impls.length = cls.impls.length := by
  have last_le : keptEnd OilImplement.named cls.impls cls.nOccupied ≤ cls.nOccupied := keptEnd_le
  rw [vacummImplArray]
  dsimp only
  split
  · exact compact_length (Nat.le_trans last_le within)
  · rfl

theorem resize_cases (within : cls.nOccupied ≤ cls.impls.length)
    (count : cls.namedImpls.length = cls.nImpls) (enough : cls.nImpls ≤ newLen)
    (called : cls.resizeImplArray heap newLen = some next) :
    (cls.nAlloc = newLen ∧ next = cls) ∨
    (cls.nAlloc ≠ newLen ∧ ∃ impls block,
      next = { cls with impls, block, nOccupied := cls.nImpls, nAlloc := newLen } ∧
      impls.length = newLen ∧ impls.take cls.nImpls = cls.namedImpls ∧
      (heap.realloc newLen = .inPlace ∧ block = cls.block ∨
        heap.realloc newLen = .moves ∧ block = cls.block + 1)) := by
  obtain ⟨impls, vacuumed, length, front⟩ : ∃ impls,
      (if cls.nOccupied ≠ cls.nImpls then cls.vacummImplArray else cls) =
        { cls with impls, nOccupied := cls.nImpls } ∧
      impls.length = cls.impls.length ∧ impls.take cls.nImpls = cls.namedImpls := by
    split
    · exact ⟨_, rfl, vacumm_length within, vacumm_take within count⟩
    case isFalse full =>
      have tight := Decidable.of_not_not full
      refine ⟨cls.impls, congrArg (fun n => { cls with nOccupied := n }) tight, rfl, ?_⟩
      rw [← tight] at count ⊢
      refine (List.filter_eq_self.mpr (List.length_filter_eq_length_iff.mp ?_)).symm
      rw [namedImpls] at count
      rw [← occupied, count, occupied, List.length_take, Nat.min_eq_left within]
  have copied : ((List.range newLen).map fun i => impls[i]?.getD (heap.fresh i)).take cls.nImpls =
      cls.namedImpls := by
    have registered_le : cls.nImpls ≤ impls.length := by
      have := congrArg List.length front
      rw [List.length_take, count] at this
      omega
    rw [← front, ← List.map_take, List.take_range, Nat.min_eq_left enough]
    apply List.ext_getElem
    · simp [registered_le]
    · intro i _ bound
      have inImpls : i < impls.length := by
        rw [List.length_take] at bound
        omega
      simp [List.getElem?_eq_getElem inImpls]
  rw [resizeImplArray] at called
  split at called
  case isFalse same => exact .inl ⟨Decidable.of_not_not same, (Option.some.inj called).symm⟩
  case isTrue differs =>
    rw [vacuumed] at called
    dsimp only at called
    refine .inr ⟨differs, (List.range newLen).map fun i => impls[i]?.getD (heap.fresh i), ?_⟩
    split at called
    · contradiction
    case h_2 answer =>
      exact ⟨cls.block, (Option.some.inj called).symm, by simp, copied, .inl ⟨answer, rfl⟩⟩
    case h_3 answer =>
      exact ⟨cls.block + 1, (Option.some.inj called).symm, by simp, copied, .inr ⟨answer, rfl⟩⟩

end Resizing

end OilClass

end Oil.Core
