import Mathlib.Data.List.Basic
import Mathlib.Data.List.Forall2

namespace Oil.Data

/-! # Attempts at every item of a list

`List.mapM` with a function that may fail gives all results, or none where one attempt fails. -/

variable {α β : Type} {f : α → Option β} {xs : List α} {ys : List β}

theorem mapM_eq_some_iff : xs.mapM f = some ys ↔ xs.map f = ys.map some := by
  induction xs generalizing ys with
  | nil => cases ys <;> simp
  | cons x xs ih =>
      rw [List.mapM_cons]
      cases attempt : f x with
      | none => cases ys <;> simp [attempt]
      | some y =>
          simp only [Option.bind_eq_bind, Option.bind_some, Option.bind_eq_some_iff, Option.pure_def, ih, List.map_cons,
            attempt]
          constructor
          · rintro ⟨rest, mapped, same⟩
            obtain rfl := Option.some.inj same
            rw [mapped, List.map_cons]
          · intro mapped
            cases ys with
            | nil => contradiction
            | cons y' ys =>
                obtain ⟨first, rest⟩ := List.cons.inj mapped
                exact ⟨ys, rest, by rw [Option.some.inj first]⟩

theorem exists_of_mem_mapM (mapped : xs.mapM f = some ys) : ∀ y ∈ ys, ∃ x ∈ xs, f x = some y := by
  intro y member
  have result : some y ∈ ys.map some := List.mem_map_of_mem member
  rw [← mapM_eq_some_iff.mp mapped] at result
  exact List.mem_map.mp result

theorem exists_mapM_of_mem {x : α} (mapped : xs.mapM f = some ys) (member : x ∈ xs) : ∃ y ∈ ys, f x = some y := by
  have attempt : f x ∈ xs.map f := List.mem_map_of_mem member
  rw [mapM_eq_some_iff.mp mapped] at attempt
  obtain ⟨y, inResults, same⟩ := List.mem_map.mp attempt
  exact ⟨y, inResults, same.symm⟩

theorem mapM_of_forall {g : α → β} (each : ∀ x ∈ xs, f x = some (g x)) : xs.mapM f = some (xs.map g) := by
  rw [mapM_eq_some_iff, List.map_map]
  exact List.map_congr_left each

theorem mapM_isSome_iff : (xs.mapM f).isSome ↔ ∀ x ∈ xs, (f x).isSome := by
  induction xs with
  | nil => simp
  | cons x xs ih =>
      rw [List.mapM_cons, List.forall_mem_cons, ← ih]
      cases f x with
      | none => simp
      | some y => cases xs.mapM f <;> simp

/-- There is one result for each item, in their order. -/
theorem forall₂_of_mapM (mapped : xs.mapM f = some ys) : List.Forall₂ (fun x y => f x = some y) xs ys := by
  have each : List.Forall₂ (· = ·) (xs.map f) (ys.map some) := by
    rw [List.forall₂_eq_eq_eq]
    exact mapM_eq_some_iff.mp mapped
  rwa [List.forall₂_map_left_iff, List.forall₂_map_right_iff] at each

/-- What is said of every two results, in their order, is said of the items they come from. -/
theorem pairwise_mapM_iff {R : β → β → Prop} {S : α → α → Prop} (mapped : xs.mapM f = some ys)
    (same : ∀ x x' y y', f x = some y → f x' = some y' → (R y y' ↔ S x x')) : ys.Pairwise R ↔ xs.Pairwise S := by
  induction xs generalizing ys with
  | nil =>
      obtain rfl := Option.some.inj mapped
      exact iff_of_true .nil .nil
  | cons x xs ih =>
      rw [List.mapM_cons] at mapped
      obtain ⟨y, first, mapped⟩ := Option.bind_eq_some_iff.mp mapped
      obtain ⟨rest, later, mapped⟩ := Option.bind_eq_some_iff.mp mapped
      obtain rfl := Option.some.inj mapped
      rw [List.pairwise_cons, List.pairwise_cons, ih later]
      refine and_congr_left fun _ => ⟨fun before x' member => ?_, fun before y' member => ?_⟩
      · obtain ⟨y', inResults, attempt⟩ := exists_mapM_of_mem later member
        exact (same x x' y y' first attempt).mp (before y' inResults)
      · obtain ⟨x', inItems, attempt⟩ := exists_of_mem_mapM later y' member
        exact (same x x' y y' first attempt).mpr (before x' inItems)

end Oil.Data
