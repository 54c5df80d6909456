import Mathlib.Data.List.Basic

namespace Oil.Data

/-! # Compacting an array in place

A read cursor visits the elements in order and a write cursor trails it.  The
write cursor is unset until the first dropped element.  Kept elements behind a
dropped one are copied to the write cursor; nothing is erased, so stale copies
remain behind the compacted part. -/

variable {α : Type} {keep : α → Bool} {values : List α} {value : α} {index count : Nat}

def compactStep (keep : α → Bool) (state : List α × Option Nat) (index : Nat) : List α × Option Nat :=
  match state.1[index]? with
  | none => state
  | some value =>
      if keep value then
        match state.2 with
        | none => state
        | some write => (state.1.set write value, some (write + 1))
      else (state.1, some (state.2.getD index))

/-- The array after the read cursor has visited the first `count` elements. -/
def compact (keep : α → Bool) (values : List α) (count : Nat) : List α :=
  ((List.range count).foldl (compactStep keep) (values, none)).1

def keptEnd (keep : α → Bool) (values : List α) : (count : Nat) → Nat
  | 0 => 0
  | count + 1 => if values[count]?.any keep then count + 1 else keptEnd keep values count

theorem filter_take_succ (keep : α → Bool) (found : values[index]? = some value) :
    (values.take (index + 1)).filter keep =
      (values.take index).filter keep ++ if keep value then [value] else [] := by
  rw [List.take_add_one, found, List.filter_append]
  split <;> simp_all

/-- What holds while the read cursor stands at `index`: the kept elements seen so far are
in front, the elements ahead are untouched, and the write cursor is behind. -/
structure Compacting (keep : α → Bool) (values : List α) (index : Nat) (state : List α × Option Nat) :
    Prop where
  length : state.1.length = values.length
  front : state.1.take ((values.take index).filter keep).length = (values.take index).filter keep
  ahead : state.1.drop index = values.drop index
  unset : state.2 = none → ((values.take index).filter keep).length = index
  behind : ∀ write, state.2 = some write →
    write = ((values.take index).filter keep).length ∧ write < index

theorem Compacting.read {state : List α × Option Nat} (compacting : Compacting keep values index state) :
    state.1[index]? = values[index]? := by
  have same := congrArg (fun rest => rest[0]?) compacting.ahead
  simpa only [List.getElem?_drop, Nat.add_zero] using same

theorem Compacting.step {state : List α × Option Nat} (compacting : Compacting keep values index state)
    (bound : index < values.length) :
    Compacting keep values (index + 1) (compactStep keep state index) := by
  obtain ⟨value, found⟩ : ∃ value, values[index]? = some value := ⟨_, List.getElem?_eq_getElem bound⟩
  have read := compacting.read.trans found
  have seen := filter_take_succ keep found
  have ahead : state.1.drop (index + 1) = values.drop (index + 1) := by
    rw [← List.drop_drop, ← List.drop_drop, compacting.ahead]
  obtain ⟨length, front, _, unset, behind⟩ := compacting
  cases kept : keep value with
  | false =>
      simp only [kept, Bool.false_eq_true, ↓reduceIte, List.append_nil] at seen
      have next : compactStep keep state index = (state.1, some (state.2.getD index)) := by
        simp only [compactStep, read, kept, Bool.false_eq_true, ↓reduceIte]
      rw [next]
      refine ⟨length, by rw [seen, front], ahead, nofun, fun write cursor => ?_⟩
      rw [seen]
      obtain rfl : state.2.getD index = write := Option.some.inj cursor
      cases place : state.2 with
      | none => exact ⟨(unset place).symm, Nat.lt_succ_self index⟩
      | some write => exact ⟨(behind write place).1, Nat.lt_succ_of_lt (behind write place).2⟩
  | true =>
      simp only [kept, ↓reduceIte] at seen
      cases place : state.2 with
      | none =>
          have next : compactStep keep state index = state := by
            simp only [compactStep, read, kept, place, ↓reduceIte]
          have full := unset place
          rw [next]
          refine ⟨length, ?_, ahead, fun _ => ?_, fun write cursor => ?_⟩
          · rw [seen, List.length_append, List.length_singleton, List.take_add_one, front, full, read]
            rfl
          · rw [seen, List.length_append, full, List.length_singleton]
          · rw [place] at cursor
            contradiction
      | some write =>
          have next : compactStep keep state index = (state.1.set write value, some (write + 1)) := by
            simp only [compactStep, read, kept, place, ↓reduceIte]
          obtain ⟨rfl, trails⟩ := behind write place
          rw [next]
          refine ⟨by rw [List.length_set, length], ?_, ?_, nofun, fun write cursor => ?_⟩
          · rw [seen, List.length_append, List.length_singleton, List.take_add_one,
              List.take_set_of_le (Nat.le_refl _),
              front, List.getElem?_set_self (by omega)]
            rfl
          · rw [List.drop_set_of_lt (by omega), ahead]
          · obtain rfl : _ + 1 = write := Option.some.inj cursor
            rw [seen, List.length_append, List.length_singleton]
            exact ⟨rfl, by omega⟩

theorem compacting_range (bound : count ≤ values.length) :
    Compacting keep values count ((List.range count).foldl (compactStep keep) (values, none)) := by
  induction count with
  | zero => exact ⟨rfl, rfl, rfl, fun _ => rfl, nofun⟩
  | succ count ih =>
      rw [List.range_succ, List.foldl_append]
      exact (ih (by omega)).step (by omega)

theorem compact_length (bound : count ≤ values.length) :
    (compact keep values count).length = values.length :=
  (compacting_range bound).length

theorem compact_take (keep : α → Bool) (bound : count ≤ values.length) :
    (compact keep values count).take ((values.take count).filter keep).length =
      (values.take count).filter keep :=
  (compacting_range bound).front

theorem keptEnd_le : keptEnd keep values count ≤ count := by
  induction count with
  | zero => exact Nat.le_refl 0
  | succ count ih =>
      rw [keptEnd]
      split <;> omega

theorem filter_take_keptEnd :
    (values.take (keptEnd keep values count)).filter keep = (values.take count).filter keep := by
  induction count with
  | zero => rfl
  | succ count ih =>
      rw [keptEnd]
      split
      · rfl
      case isFalse dropped =>
        rw [ih]
        cases found : values[count]? with
        | none =>
            rw [List.take_of_length_le (List.getElem?_eq_none_iff.mp found),
              List.take_of_length_le (Nat.le_succ_of_le (List.getElem?_eq_none_iff.mp found))]
        | some value =>
            rw [found, Option.any_some] at dropped
            rw [filter_take_succ keep found, if_neg dropped, List.append_nil]

/-- Behind kept elements only, an element keeps its place. -/
theorem filter_getElem?_of_kept (found : values[index]? = some value) (kept : keep value = true)
    (front : ∀ other ∈ values.take index, keep other = true) : (values.filter keep)[index]? = some value := by
  obtain ⟨bound, rfl⟩ := List.getElem?_eq_some_iff.mp found
  have length : (values.take index).length = index := List.length_take_of_le (Nat.le_of_lt bound)
  have parts : values.filter keep = values.take index ++ values[index] :: (values.drop (index + 1)).filter keep := by
    conv_lhs => rw [← List.take_append_drop index values, List.drop_eq_getElem_cons bound]
    rw [List.filter_append, List.filter_eq_self.mpr front, List.filter_cons_of_pos kept]
  rw [parts, List.getElem?_append_right (Nat.le_of_eq length), length, Nat.sub_self]
  rfl

/-- Behind a dropped element it moves forward, and what takes its place was behind it. -/
theorem filter_getElem?_of_dropped (found : values[index]? = some value) (kept : keep value = true)
    {gap other : α} (before : gap ∈ values.take index) (dropped : keep gap = false)
    (there : (values.filter keep)[index]? = some other) :
    ∃ front rest, values.filter keep = front ++ value :: rest ∧ other ∈ rest := by
  obtain ⟨bound, rfl⟩ := List.getElem?_eq_some_iff.mp found
  have length : (values.take index).length = index := List.length_take_of_le (Nat.le_of_lt bound)
  have parts : values.filter keep =
      (values.take index).filter keep ++ values[index] :: (values.drop (index + 1)).filter keep := by
    conv_lhs => rw [← List.take_append_drop index values, List.drop_eq_getElem_cons bound]
    rw [List.filter_append, List.filter_cons_of_pos kept]
  have fewer : ((values.take index).filter keep).length < index := by
    have shorter : ((values.take index).filter keep).length < (values.take index).length :=
      List.length_filter_lt_length_iff_exists.mpr ⟨gap, before, by simp [dropped]⟩
    rwa [length] at shorter
  obtain ⟨ahead, position⟩ := Nat.exists_eq_add_of_lt fewer
  refine ⟨_, _, parts, ?_⟩
  rw [parts, List.getElem?_append_right (Nat.le_of_lt fewer),
    show index - ((values.take index).filter keep).length = ahead + 1 by omega, List.getElem?_cons_succ] at there
  exact List.mem_of_getElem? there

end Oil.Data
