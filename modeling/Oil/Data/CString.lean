import Mathlib.Data.List.DropRight

namespace Oil.Data

/-! # C strings in a byte buffer

A pointer into a buffer is an index; the string it points to ends before the next NUL. -/

variable {buf : List UInt8} {i j : Nat} {text left right : List UInt8} {byte c : UInt8}

def cstr (buf : List UInt8) (i : Nat) : List UInt8 := (buf.drop i).takeWhile (· ≠ 0)

/-- `strchr`, for a character other than NUL. -/
def strchr (buf : List UInt8) (i : Nat) (c : UInt8) : Option Nat :=
  ((cstr buf i).findIdx? (· = c)).map (i + ·)

/-- `strncpy`: at most `n` bytes of the string `src`, filled up with NULs. -/
def strncpy (dst src : List UInt8) (n : Nat) : List UInt8 :=
  src.take n ++ List.replicate (n - src.length) 0 ++ dst.drop n

theorem unfound_of_not_mem (absent : byte ∉ text) : text.findIdx? (· = byte) = none :=
  List.findIdx?_eq_none_iff.mpr fun _ member => decide_eq_false fun same => absent (same ▸ member)

theorem split_at_first (present : c ∈ text) :
    text = text.takeWhile (· ≠ c) ++ c :: (text.dropWhile (· ≠ c)).tail ∧ c ∉ text.takeWhile (· ≠ c) := by
  have absent : c ∉ text.takeWhile (· ≠ c) := fun member => by simpa using List.mem_takeWhile_imp member
  refine ⟨?_, absent⟩
  have parts : text.takeWhile (· ≠ c) ++ text.dropWhile (· ≠ c) = text := List.takeWhile_append_dropWhile
  have stopped : text.dropWhile (· ≠ c) ≠ [] := by
    intro none
    rw [none, List.append_nil] at parts
    exact absent (by rwa [parts])
  have first : (text.dropWhile (· ≠ c)).head stopped = c := by
    simpa using List.head_dropWhile_not (fun byte : UInt8 => decide (byte ≠ c)) stopped
  rw [← List.cons_head_tail stopped, first] at parts
  exact parts.symm

/-- The string at index `i` is `text`, and its NUL lies in the buffer. -/
def HoldsAt (buf : List UInt8) (i : Nat) (text : List UInt8) : Prop :=
  0 ∉ text ∧ ∃ front back, buf = front ++ (text ++ 0 :: back) ∧ front.length = i

namespace HoldsAt

theorem of_mem (terminated : 0 ∈ buf.drop i) (bound : i ≤ buf.length) : HoldsAt buf i (cstr buf i) := by
  obtain ⟨parts, nulFree⟩ := split_at_first terminated
  refine ⟨nulFree, buf.take i, ((buf.drop i).dropWhile (· ≠ 0)).tail, ?_, List.length_take_of_le bound⟩
  conv_lhs => rw [← List.take_append_drop i buf, parts]
  rfl

theorem cstr_eq (holds : HoldsAt buf i text) : cstr buf i = text := by
  obtain ⟨nulFree, front, back, rfl, rfl⟩ := holds
  rw [cstr, List.drop_left, List.takeWhile_append_of_pos, List.takeWhile_cons_of_neg (by simp), List.append_nil]
  intro byte member
  simp only [decide_eq_true_eq]
  rintro rfl
  exact nulFree member

theorem advance (holds : HoldsAt buf i (left ++ right)) : HoldsAt buf (i + left.length) right := by
  obtain ⟨nulFree, front, back, rfl, rfl⟩ := holds
  refine ⟨fun member => nulFree (List.mem_append_right _ member), front ++ left, back, ?_, by simp⟩
  simp only [List.append_assoc]

theorem cut (holds : HoldsAt buf i (left ++ byte :: right)) :
    HoldsAt (buf.set (i + left.length) 0) i left ∧
      HoldsAt (buf.set (i + left.length) 0) (i + left.length + 1) right := by
  obtain ⟨nulFree, front, back, rfl, rfl⟩ := holds
  have written : (front ++ (left ++ byte :: right ++ 0 :: back)).set (front.length + left.length) 0 =
      front ++ (left ++ 0 :: (right ++ 0 :: back)) := by
    rw [List.set_append_right _ _ (by omega), Nat.add_sub_cancel_left, List.append_assoc,
      List.set_append_right _ _ (Nat.le_refl _), Nat.sub_self]
    rfl
  rw [written]
  refine ⟨⟨fun member => nulFree (List.mem_append_left _ member), front, right ++ 0 :: back, rfl, rfl⟩,
    fun member => nulFree (List.mem_append_right _ (.tail _ member)), front ++ left ++ [0], back, ?_, ?_⟩
  · simp only [List.append_assoc, List.singleton_append]
  · simp only [List.length_append, List.length_singleton]

theorem set_end (holds : HoldsAt buf i text) : HoldsAt (buf.set (i + text.length) 0) i text := by
  obtain ⟨nulFree, front, back, rfl, rfl⟩ := holds
  refine ⟨nulFree, front, back, ?_, rfl⟩
  rw [List.set_append_right _ _ (by omega), Nat.add_sub_cancel_left,
    List.set_append_right _ _ (Nat.le_refl _), Nat.sub_self]
  rfl

theorem set_before (holds : HoldsAt buf i text) (before : j < i) : HoldsAt (buf.set j byte) i text := by
  obtain ⟨nulFree, front, back, rfl, rfl⟩ := holds
  refine ⟨nulFree, front.set j byte, back, ?_, List.length_set⟩
  rw [List.set_append_left _ _ before]

theorem set_behind (holds : HoldsAt buf i text) (behind : i + text.length < j) :
    HoldsAt (buf.set j byte) i text := by
  obtain ⟨nulFree, front, back, rfl, rfl⟩ := holds
  obtain ⟨k, rfl⟩ := Nat.exists_eq_add_of_lt behind
  refine ⟨nulFree, front, back.set k byte, ?_, rfl⟩
  rw [Nat.add_assoc, Nat.add_assoc, List.set_append_right _ _ (by omega), Nat.add_sub_cancel_left,
    List.set_append_right _ _ (by omega), Nat.add_sub_cancel_left]
  rfl

theorem strchr_none (holds : HoldsAt buf i text) (absent : byte ∉ text) : strchr buf i byte = none := by
  rw [strchr, holds.cstr_eq, unfound_of_not_mem absent, Option.map_none]

theorem strchr_some (holds : HoldsAt buf i (left ++ byte :: right)) (first : byte ∉ left) :
    strchr buf i byte = some (i + left.length) := by
  rw [strchr, holds.cstr_eq, List.findIdx?_append, unfound_of_not_mem first, Option.none_or, List.findIdx?_cons]
  simp

end HoldsAt

/-- Copying a piece of a string puts it before what the buffer held behind it. -/
theorem holdsAt_strncpy {line : List UInt8} (src : List UInt8) (nulFree : 0 ∉ line)
    (bound : line.length ≤ buf.length) (terminated : 0 ∈ buf.drop line.length) :
    HoldsAt (strncpy buf (line ++ src) line.length) 0 (line ++ cstr buf line.length) := by
  obtain ⟨restFree, front, back, parts, length⟩ := HoldsAt.of_mem terminated bound
  have behind : buf.drop line.length = cstr buf line.length ++ 0 :: back := by
    conv_lhs => rw [parts, ← length]
    rw [List.drop_left]
    rw [length]
  refine ⟨?_, [], back, ?_, rfl⟩
  · rw [List.mem_append]
    exact fun member => member.elim nulFree restFree
  · rw [strncpy, List.take_left, behind, List.length_append, Nat.sub_eq_zero_of_le (by omega),
      List.replicate_zero, List.append_nil, List.nil_append, List.append_assoc]

theorem holdsAt_strncpy_whole {line : List UInt8} {n : Nat} (nulFree : 0 ∉ line)
    (short : line.length ≤ n) (terminated : ∃ back, buf.drop n = 0 :: back) :
    HoldsAt (strncpy buf line n) 0 line := by
  obtain ⟨back, behind⟩ := terminated
  rw [strncpy, List.take_of_length_le short, behind]
  obtain ⟨k, rfl⟩ := Nat.exists_eq_add_of_le short
  rw [Nat.add_sub_cancel_left]
  cases k with
  | zero => exact ⟨nulFree, [], back, by simp, rfl⟩
  | succ k => exact ⟨nulFree, [], List.replicate k 0 ++ 0 :: back, by simp [List.replicate_succ], rfl⟩

end Oil.Data
