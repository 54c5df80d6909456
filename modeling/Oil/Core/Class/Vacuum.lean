import Oil.Core.Class.Operations

namespace Oil.Core

open Oil.Data

/-! # Vacuuming the implement array

Holes are closed by moving the entries behind them forward.  Stale copies may stay behind the
entries that count. -/

variable {F D σ : Type}

/-- A loop over entries with holes between them stops at the same entry, with the same user data,
as one over the entries alone. -/
theorem foreachLoop_named (visitor : String → F → Nat → σ → Bool × σ) (entries : List (OilImplement F)) (i j : Nat)
    (userData : σ) :
    (∃ data, foreachLoop visitor entries i userData = (none, data) ∧
      foreachLoop visitor (entries.filter OilImplement.named) j userData = (none, data)) ∨
    ∃ k l entry data, foreachLoop visitor entries i userData = (some (i + k), data) ∧
      foreachLoop visitor (entries.filter OilImplement.named) j userData = (some (j + l), data) ∧
      entries[k]? = some entry ∧ (entries.filter OilImplement.named)[l]? = some entry := by
  induction entries generalizing i j userData with
  | nil => exact .inl ⟨userData, rfl, rfl⟩
  | cons head rest ih =>
      cases called : head.name with
      | none =>
          have hole : ¬ head.named = true := by simp [OilImplement.named, called]
          rw [List.filter_cons_of_neg hole, foreachLoop, called]
          rcases ih (i + 1) j userData with ended | ⟨k, l, entry, data, stopped, same, found, there⟩
          · exact .inl ended
          · exact .inr ⟨k + 1, l, entry, data, by rw [stopped, Nat.add_right_comm, Nat.add_assoc], same, found, there⟩
      | some name =>
          have named : head.named = true := OilClass.named_of_name called
          cases told : visitor name head.impl head.flags userData with
          | mk stop data =>
              have visit (entries : List (OilImplement F)) (i : Nat) :
                  foreachLoop visitor (head :: entries) i userData =
                    if stop then (some i, data) else foreachLoop visitor entries (i + 1) data := by
                rw [foreachLoop, called]
                simp only [told]
              rw [List.filter_cons_of_pos named, visit, visit]
              cases stop with
              | true => exact .inr ⟨0, 0, head, data, rfl, rfl, rfl, rfl⟩
              | false =>
                  rcases ih (i + 1) (j + 1) data with ended | ⟨k, l, entry, data, stopped, same, found, there⟩
                  · exact .inl ended
                  · refine .inr ⟨k + 1, l + 1, entry, data, ?_, ?_, found, there⟩
                    · rw [← Nat.add_assoc, Nat.add_right_comm]
                      exact stopped
                    · rw [← Nat.add_assoc, Nat.add_right_comm]
                      exact same

namespace OilClass

variable {cls next : OilClass F D}

/-- What `_class_vacumm_impl_array` makes of a class. -/
structure Vacuumed (cls next : OilClass F D) : Prop where
  nOccupied : next.nOccupied = cls.nImpls
  front : next.impls.take cls.nImpls = cls.namedImpls
  occupied : next.occupied = cls.namedImpls
  visits : ∀ {σ : Type} (visitor : String → F → Nat → σ → Bool × σ) (userData : σ),
    next.implementsForeach visitor userData = cls.implementsForeach visitor userData
  owners : ∀ name, next.occupied.filter (fun entry => entry.name = some name) =
    cls.occupied.filter fun entry => entry.name = some name
  distinct : next.occupied.Pairwise (fun a b => a.name ≠ b.name) ↔
    cls.namedImpls.Pairwise fun a b => a.name ≠ b.name
  rest : next = { cls with impls := next.impls, nOccupied := next.nOccupied }
  length : next.impls.length = cls.impls.length

/-- Where no hole is left, the visitors of both classes meet the same entries. -/
theorem implementsForeach_packed (packed : next.occupied = cls.namedImpls)
    (visitor : String → F → Nat → σ → Bool × σ) (userData : σ) :
    next.implementsForeach visitor userData = cls.implementsForeach visitor userData := by
  rw [implementsForeach, implementsForeach, foreachInternal, foreachInternal, packed, namedImpls]
  rcases foreachLoop_named visitor cls.occupied 0 0 userData with
    ⟨data, ended, same⟩ | ⟨k, l, entry, data, stopped, same, found, there⟩
  · rw [ended, same]
    rfl
  · have inNext : next.occupied[l]? = some entry := by
      rw [packed]
      exact there
    rw [stopped, same]
    simp only [Nat.zero_add, Option.bind_some, (occupied_getElem? inNext).2, (occupied_getElem? found).2]

theorem owners_packed (packed : next.occupied = cls.namedImpls) (name : String) :
    next.occupied.filter (fun entry => entry.name = some name) =
      cls.occupied.filter fun entry => entry.name = some name := by
  rw [packed, namedImpls, List.filter_filter]
  apply List.filter_congr
  intro entry _
  by_cases called : entry.name = some name
  · simp [called, named_of_name called]
  · simp [called]

/-- A resize of the array vacuums it first, and keeps what the visitors meet. -/
def ResizesKeepVisits (cls : OilClass F D) : Prop :=
  ∀ {heap : Heap F} {newLen : Nat} {next : OilClass F D}, cls.nImpls ≤ newLen →
    cls.resizeImplArray heap newLen = some next →
    ∀ {σ : Type} (visitor : String → F → Nat → σ → Bool × σ) (userData : σ),
      next.implementsForeach visitor userData = cls.implementsForeach visitor userData

theorem resize_visits (within : cls.nOccupied ≤ cls.impls.length) (count : cls.namedImpls.length = cls.nImpls) :
    cls.ResizesKeepVisits := by
  intro heap newLen next enough resized σ visitor userData
  rcases resize_cases within count enough resized with ⟨_, rfl⟩ | ⟨_, impls, block, rfl, _, front, _⟩
  · rfl
  · have packed : occupied { cls with impls, block, nOccupied := cls.nImpls, nAlloc := newLen } = cls.namedImpls :=
      front
    exact implementsForeach_packed packed visitor userData

/-- The vacuum closes every hole, whatever their pattern is: the named entries are left, in their
order.  So the visitors meet the same entries behind a resize. -/
theorem vacumm_packs (within : cls.nOccupied ≤ cls.impls.length) (count : cls.namedImpls.length = cls.nImpls) :
    Vacuumed cls cls.vacummImplArray ∧ cls.ResizesKeepVisits := by
  have front := vacumm_take within count
  have packed : cls.vacummImplArray.occupied = cls.namedImpls := front
  exact ⟨{
    nOccupied := rfl
    front := front
    occupied := packed
    visits := implementsForeach_packed packed
    owners := owners_packed packed
    distinct := by rw [packed]
    rest := rfl
    length := vacumm_length within }, resize_visits within count⟩

/-- A class with holes in front, in a row and at the end. -/
def holedClass : OilClass Nat Nat where
  name := "f"
  slot := 0
  ref := 0
  nOccupied := 7
  nAlloc := 9
  nImpls := 2
  activeImpl := none
  block := 0
  impls := [⟨none, 0, 0⟩, ⟨some "a", 1, 0⟩, ⟨none, 0, 0⟩, ⟨none, 0, 0⟩, ⟨some "b", 2, 0⟩, ⟨none, 0, 0⟩, ⟨none, 0, 0⟩,
    ⟨some "stale", 3, 0⟩, ⟨none, 0, 0⟩]
  data := none

theorem vacumm_packs_holed : Vacuumed holedClass holedClass.vacummImplArray ∧ holedClass.ResizesKeepVisits :=
  vacumm_packs (by decide) (by decide)

end OilClass

end Oil.Core
