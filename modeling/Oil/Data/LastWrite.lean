import Mathlib.Data.List.Induction
import Mathlib.Logic.Function.Basic

namespace Oil.Data

/-! # The last write to a cell stays -/

variable {K V : Type} [DecidableEq K] {cells : K → V} {writes later : List (K × V)} {key : K} {value : V}

def writeAll (cells : K → V) (writes : List (K × V)) : K → V :=
  writes.foldl (fun cells w => Function.update cells w.1 w.2) cells

def lastWrite (writes : List (K × V)) (key : K) : Option V :=
  ((writes.filter fun w => w.1 = key).getLast?).map Prod.snd

theorem writeAll_append (cells : K → V) (writes later : List (K × V)) :
    writeAll cells (writes ++ later) = writeAll (writeAll cells writes) later := List.foldl_append

theorem lastWrite_concat (write : K × V) :
    lastWrite (writes ++ [write]) key = if write.1 = key then some write.2 else lastWrite writes key := by
  rw [lastWrite, List.filter_append, lastWrite]
  by_cases hit : write.1 = key
  · simp [hit]
  · simp [hit]

theorem writeAll_apply (cells : K → V) (writes : List (K × V)) (key : K) :
    writeAll cells writes key = (lastWrite writes key).getD (cells key) := by
  induction writes using List.reverseRecOn with
  | nil => rfl
  | append_singleton writes write ih =>
      rw [writeAll_append, lastWrite_concat]
      by_cases hit : write.1 = key
      · rw [if_pos hit, ← hit]
        exact Function.update_self _ _ _
      · rw [if_neg hit, ← ih]
        exact Function.update_of_ne (Ne.symm hit) _ _

/-- A write stays exactly if none behind it is to the same cell. -/
theorem lastWrite_eq_some_iff :
    lastWrite writes key = some value ↔
      ∃ before behind, writes = before ++ (key, value) :: behind ∧ ∀ w ∈ behind, w.1 ≠ key := by
  induction writes using List.reverseRecOn with
  | nil => simp [lastWrite]
  | append_singleton writes write ih =>
      rw [lastWrite_concat]
      constructor
      · intro last
        split at last
        case isTrue hit =>
          obtain rfl := Option.some.inj last
          exact ⟨writes, [], by rw [← hit], nofun⟩
        case isFalse misses =>
          obtain ⟨before, behind, rfl, apart⟩ := ih.mp last
          refine ⟨before, behind ++ [write], by simp, fun w member => ?_⟩
          rcases List.mem_append.mp member with early | late
          · exact apart w early
          · exact List.mem_singleton.mp late ▸ misses
      · rintro ⟨before, behind, split, apart⟩
        rcases List.eq_nil_or_concat behind with rfl | ⟨front, final, rfl⟩
        · obtain ⟨_, same⟩ := List.append_inj' split rfl
          obtain rfl := (List.cons.inj same).1
          exact if_pos rfl
        · rw [List.concat_eq_append] at split apart
          have ends : before ++ (key, value) :: (front ++ [final]) = (before ++ (key, value) :: front) ++ [final] := by simp
          obtain ⟨rfl, same⟩ := List.append_inj' (split.trans ends) rfl
          obtain rfl := (List.cons.inj same).1
          rw [if_neg (apart write (List.mem_append_right _ (.head _)))]
          exact ih.mpr ⟨before, front, rfl, fun w member => apart w (List.mem_append_left _ member)⟩

theorem mem_of_lastWrite (last : lastWrite writes key = some value) : (key, value) ∈ writes := by
  obtain ⟨before, behind, rfl, _⟩ := lastWrite_eq_some_iff.mp last
  exact List.mem_append_right _ (.head _)

theorem exists_lastWrite {write : K × V} (member : write ∈ writes) : ∃ value, lastWrite writes write.1 = some value := by
  have hit : write ∈ writes.filter fun w => w.1 = write.1 := List.mem_filter.mpr ⟨member, decide_eq_true rfl⟩
  refine ⟨((writes.filter fun w => w.1 = write.1).getLast (List.ne_nil_of_mem hit)).2, ?_⟩
  rw [lastWrite, List.getLast?_eq_some_getLast (List.ne_nil_of_mem hit), Option.map_some]

/-- Writing everything once more changes nothing. -/
theorem writeAll_again (cells : K → V) (writes : List (K × V)) :
    writeAll (writeAll cells writes) writes = writeAll cells writes := by
  funext key
  rw [writeAll_apply, writeAll_apply]
  cases lastWrite writes key <;> rfl

end Oil.Data
