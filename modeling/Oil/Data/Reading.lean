import Mathlib.Data.List.Basic

namespace Oil.Data

/-! # Code that reads memory

A piece of code that reads memory gives a result, if it comes to one, and leaves a trace of
the positions it reads.  A string in memory ends with the element `nul`. -/

structure Reading (β : Type) where
  result : Option β
  reads : List Nat

namespace Reading

variable {α β γ : Type} {last i n : Nat}

instance : Monad Reading where
  pure b := ⟨some b, []⟩
  bind r f :=
    match r.result with
    | none => ⟨none, r.reads⟩
    | some b => ⟨(f b).result, r.reads ++ (f b).reads⟩

/-- The code stops the program. -/
def abort : Reading β := ⟨none, []⟩

/-- It gives this result, and reads nothing behind a position. -/
structure Gives (r : Reading β) (last : Nat) (result : Option β) : Prop where
  result : r.result = result
  inside : ∀ i ∈ r.reads, i ≤ last

section Rules

variable {r : Reading β} {f : β → Reading γ} {b : β} {result : Option γ}

theorem gives_pure (last : Nat) (b : β) : Gives (pure b : Reading β) last (some b) := ⟨rfl, nofun⟩

theorem gives_abort (last : Nat) : (abort : Reading β).Gives last none := ⟨rfl, nofun⟩

theorem Gives.bind (first : r.Gives last (some b)) (rest : (f b).Gives last result) : (r >>= f).Gives last result := by
  obtain ⟨resultFirst, insideFirst⟩ := first
  have ran : (r >>= f) = ⟨(f b).result, r.reads ++ (f b).reads⟩ := by
    change (match r.result with
      | none => (⟨none, r.reads⟩ : Reading γ)
      | some b => ⟨(f b).result, r.reads ++ (f b).reads⟩) = _
    rw [resultFirst]
  rw [ran]
  refine ⟨rest.result, fun i member => ?_⟩
  rcases List.mem_append.mp member with before | after
  · exact insideFirst i before
  · exact rest.inside i after

theorem Gives.mono (gives : r.Gives i (some b)) (bound : i ≤ last) : r.Gives last (some b) :=
  ⟨gives.result, fun j member => Nat.le_trans (gives.inside j member) bound⟩

theorem Gives.foldlM {δ : Type} {f : γ → δ → Reading γ} {g : γ → δ → γ} {xs : List δ}
    (each : ∀ x ∈ xs, ∀ c, (f c x).Gives last (some (g c x))) (c : γ) :
    (xs.foldlM f c).Gives last (some (xs.foldl g c)) := by
  induction xs generalizing c with
  | nil => exact gives_pure last c
  | cons x xs ih =>
      rw [List.foldlM_cons, List.foldl_cons]
      exact (each x (.head _) c).bind (ih (fun y member => each y (.tail _ member)) (g c x))

/-- The first of two pieces reads what it reads. -/
theorem mem_reads_bind (read : i ∈ r.reads) : i ∈ (r >>= f).reads := by
  change i ∈ (match r.result with
    | none => (⟨none, r.reads⟩ : Reading γ)
    | some b => ⟨(f b).result, r.reads ++ (f b).reads⟩).reads
  split
  · exact read
  · exact List.mem_append_left _ read

end Rules

section Strings

variable (nul : α) (memory : List α)

/-- The string at a position, up to its end. -/
structure StringAt (i : Nat) (text : List α) : Prop where
  free : nul ∉ text
  held : ∃ behind, memory.drop i = text ++ nul :: behind

variable [DecidableEq α]

/-- A loop that moves on while the element it reads is to be skipped. -/
def skipFrom (skips : α → Bool) : (rest : List α) → (i : Nat) → Reading Nat
  | [], i => ⟨none, [i]⟩
  | c :: rest, i =>
      if skips c then ⟨(skipFrom skips rest (i + 1)).result, i :: (skipFrom skips rest (i + 1)).reads⟩
      else ⟨some i, [i]⟩

/-- `strlen` -/
def strlen (i : Nat) : Reading Nat := do
  let stop ← skipFrom (· ≠ nul) (memory.drop i) i
  pure (stop - i)

def readAt (i : Nat) : Reading α := ⟨memory[i]?, [i]⟩

/-- `strncmp` with a word that is as long as the bound: whether the memory agrees with it. -/
def strncmp : (i : Nat) → (word : List α) → Reading Bool
  | _, [] => pure true
  | i, w :: word => do
      let c ← readAt memory i
      if c = w then strncmp (i + 1) word else pure false

/-- `memcpy` -/
def memcpy (i n : Nat) : Reading (List α) :=
  ⟨if i + n ≤ memory.length then some ((memory.drop i).take n) else none, List.range' i n⟩

/-- `strndup` -/
def strndup (i : Nat) : (n : Nat) → Reading (List α)
  | 0 => pure []
  | n + 1 => do
      let c ← readAt memory i
      if c = nul then pure []
      else do
        let rest ← strndup (i + 1) n
        pure (c :: rest)

end Strings

section Specifications

variable {nul : α} {memory text front rest : List α} {c : α} {skips : α → Bool}

theorem StringAt.advance (held : StringAt nul memory i (front ++ rest)) :
    StringAt nul memory (i + front.length) rest := by
  obtain ⟨free, behind, parts⟩ := held
  refine ⟨fun member => free (List.mem_append_right _ member), behind, ?_⟩
  rw [← List.drop_drop, parts, List.append_assoc, List.drop_left]

theorem StringAt.drop (held : StringAt nul memory i text) (n : Nat) (short : n ≤ text.length) :
    StringAt nul memory (i + n) (text.drop n) := by
  have later := advance (show StringAt nul memory i (text.take n ++ text.drop n) by rwa [List.take_append_drop])
  rwa [List.length_take_of_le short] at later

theorem StringAt.tail (held : StringAt nul memory i (c :: rest)) : StringAt nul memory (i + 1) rest :=
  advance (show StringAt nul memory i ([c] ++ rest) from held)

theorem StringAt.readAt (held : StringAt nul memory i (c :: rest)) :
    (readAt memory i).Gives (i + (c :: rest).length) (some c) := by
  obtain ⟨_, behind, parts⟩ := held
  refine ⟨?_, fun j member => ?_⟩
  · rw [Reading.readAt, ← List.head?_drop, parts]
    rfl
  · obtain rfl := List.mem_singleton.mp member
    omega

theorem StringAt.readAt_end (held : StringAt nul memory i []) : (Reading.readAt memory i).Gives i (some nul) := by
  obtain ⟨_, behind, parts⟩ := held
  refine ⟨?_, fun j member => ?_⟩
  · rw [Reading.readAt, ← List.head?_drop, parts]
    rfl
  · exact Nat.le_of_eq (List.mem_singleton.mp member)

theorem skipFrom_gives (all : ∀ c ∈ front, skips c = true) (stops : skips c = false) (i : Nat) :
    (skipFrom skips (front ++ c :: rest) i).Gives (i + front.length) (some (i + front.length)) := by
  induction front generalizing i with
  | nil =>
      rw [List.nil_append, skipFrom, stops, if_neg Bool.false_ne_true]
      exact ⟨rfl, fun j member => by simpa using Nat.le_of_eq (List.mem_singleton.mp member)⟩
  | cons x front ih =>
      obtain ⟨result, inside⟩ := ih (fun c member => all c (.tail _ member)) (i + 1)
      rw [List.cons_append, skipFrom, all x (.head _), if_pos rfl, List.length_cons]
      refine ⟨by rw [result, Nat.add_right_comm i 1, Nat.add_assoc], fun j member => ?_⟩
      rcases List.mem_cons.mp member with rfl | later
      · omega
      · have := inside j later
        omega

/-- Where all elements are skipped, the one behind them is read. -/
theorem mem_skipFrom_reads (all : ∀ c ∈ front, skips c = true) (rest : List α) (i : Nat) :
    i + front.length ∈ (skipFrom skips (front ++ rest) i).reads := by
  induction front generalizing i with
  | nil =>
      cases rest with
      | nil => exact .head _
      | cons c rest =>
          rw [List.nil_append, skipFrom]
          split <;> exact .head _
  | cons x front ih =>
      have later := ih (fun c member => all c (.tail _ member)) (i + 1)
      rw [List.cons_append, skipFrom, all x (.head _), if_pos rfl, List.length_cons]
      rw [Nat.add_right_comm] at later
      exact .tail _ later

theorem StringAt.memcpy (held : StringAt nul memory i text) (short : n ≤ text.length) :
    (memcpy memory i n).Gives (i + text.length) (some (text.take n)) := by
  obtain ⟨_, behind, parts⟩ := held
  have length := congrArg List.length parts
  rw [List.length_drop, List.length_append, List.length_cons] at length
  refine ⟨?_, fun j member => ?_⟩
  · rw [Reading.memcpy, if_pos (by omega), parts, List.take_append_of_le_length short]
  · obtain ⟨k, bound, rfl⟩ := List.mem_range'.mp member
    omega

variable [DecidableEq α]

theorem StringAt.strlen (held : StringAt nul memory i text) :
    (strlen nul memory i).Gives (i + text.length) (some text.length) := by
  obtain ⟨free, behind, parts⟩ := held
  have all : ∀ c ∈ text, decide (c ≠ nul) = true := fun c member => decide_eq_true fun same => free (same ▸ member)
  have skipped : (skipFrom (· ≠ nul) (text ++ nul :: behind) i).Gives (i + text.length) (some (i + text.length)) :=
    skipFrom_gives all (by simp) i
  rw [← parts] at skipped
  refine skipped.bind ?_
  rw [Nat.add_sub_cancel_left]
  exact gives_pure _ _

/-- A word without a NUL is compared with no more than the string. -/
theorem StringAt.strncmp {word : List α} (held : StringAt nul memory i text) (free : nul ∉ word) :
    (strncmp memory i word).Gives (i + text.length) (some (decide (text.take word.length = word))) := by
  induction word generalizing i text with
  | nil => exact gives_pure _ _
  | cons w word ih =>
      rw [Reading.strncmp]
      cases text with
      | nil =>
          have differs : nul ≠ w := fun same => free (same ▸ .head _)
          refine held.readAt_end.bind ?_
          rw [if_neg differs]
          exact gives_pure _ _
      | cons c text =>
          refine held.readAt.bind ?_
          have later := ih held.tail fun member => free (.tail _ member)
          rw [Nat.add_assoc, Nat.add_comm 1] at later
          by_cases same : c = w
          · rw [if_pos same]
            simpa [same] using later
          · rw [if_neg same]
            have whole : decide ((c :: text).take (w :: word).length = w :: word) = false := by simp [same]
            rw [whole]
            exact gives_pure _ _

theorem StringAt.strndup (held : StringAt nul memory i text) (n : Nat) :
    (strndup nul memory i n).Gives (i + text.length) (some (text.take n)) := by
  induction n generalizing i text with
  | zero => exact gives_pure _ _
  | succ n ih =>
      rw [Reading.strndup]
      cases text with
      | nil =>
          refine held.readAt_end.bind ?_
          rw [if_pos rfl]
          exact gives_pure _ _
      | cons c text =>
          have differs : c ≠ nul := fun same => held.free (same ▸ .head _)
          have later := ih held.tail
          rw [Nat.add_assoc, Nat.add_comm 1] at later
          refine held.readAt.bind ?_
          rw [if_neg differs]
          exact later.bind (gives_pure _ _)

end Specifications

end Reading

end Oil.Data
