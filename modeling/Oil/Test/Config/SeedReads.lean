import Oil.Data.Reading
import Oil.Test.Config.Seed

namespace Oil.Test

open Oil.Data Reading

/-! # What is read of a seed string

`_gen_seed_from_string` looks for the seed behind the blanks a string begins with.  A position
counts from the start of the string. -/

/-- `strchr (" \t\v\r\n\f", c)` finds something, be it the NUL at the end of the blanks. -/
def amongBlanks (c : Char) : Bool := isSeedBlank c || c = '\x00'

/-- The loop over the blanks. -/
def eatBlanks (memory : List Char) : Reading Nat := skipFrom amongBlanks memory 0

/-- `g_error ("Unknown or invalid random seed: %s", seed_str)` -/
def seedError {β : Type} (memory : List Char) (seedStr : Nat) : Reading β := do
  let _ ← strlen '\x00' memory seedStr
  abort

/-- The loop over the words of a seed. -/
def copySeedWords (memory : List Char) (s : Nat) (seedArray : SeedArray) : Reading SeedArray :=
  (List.range seedArrayLen).foldlM (fun seedArray i => do
    let hexbuf ← memcpy memory (s + 8 * i) 8
    pure (Function.update seedArray ⟨0, Nat.zero_lt_succ 3⟩ (UInt32.ofNat (asciiStrtoullHex hexbuf)))) seedArray

/-- `_gen_seed_from_string`, for the string that the memory begins with. -/
def genSeedFromStringIn (memory : List Char) (seedArray : SeedArray) : Reading (List Char × SeedArray) := do
  let seedStr ← eatBlanks memory
  let tagged ← strncmp memory seedStr seedTag
  if tagged then
    let length ← strlen '\x00' memory (seedStr + 4)
    if seedArrayLen * 8 ≤ length then
      let seedArray ← copySeedWords memory (seedStr + 4) seedArray
      let seed ← Reading.strndup '\x00' memory seedStr (4 + seedArrayLen * 8)
      pure (seed, seedArray)
    else seedError memory seedStr
  else seedError memory seedStr

/-- The loop over the blanks stops at the first other character or at the NUL, and nothing behind the
NUL is read. -/
structure ReadsInside (seedArray : SeedArray) (text behind : List Char) : Prop where
  stops : (eatBlanks (text ++ '\x00' :: behind)).result = some (text.takeWhile isSeedBlank).length
  inside : ∀ i ∈ (genSeedFromStringIn (text ++ '\x00' :: behind) seedArray).reads, i ≤ text.length

section Inside

variable {memory text behind : List Char} {i : Nat} {seedArray : SeedArray}

theorem seedError_gives {β : Type} (held : StringAt '\x00' memory i text) :
    (seedError memory i : Reading β).Gives (i + text.length) none :=
  held.strlen.bind (gives_abort _)

theorem copySeedWords_gives (held : StringAt '\x00' memory i text) (long : seedArrayLen * 8 ≤ text.length)
    (seedArray : SeedArray) :
    (copySeedWords memory i seedArray).Gives (i + text.length) (some (readSeedWords text seedArray)) := by
  refine Gives.foldlM (fun k member seedArray => ?_) seedArray
  have bound := List.mem_range.mp member
  have four : seedArrayLen = 4 := rfl
  have word := (held.drop (8 * k) (by omega)).memcpy (by rw [List.length_drop]; omega : 8 ≤ _)
  refine (word.mono (by rw [List.length_drop]; omega)).bind (gives_pure _ _)

theorem eatBlanks_gives {blanks seed : List Char} (free : '\x00' ∉ blanks ++ seed)
    (all : ∀ c ∈ blanks, isSeedBlank c = true) (starts : ∃ c rest, seed = c :: rest ∧ isSeedBlank c = false)
    (behind : List Char) :
    (eatBlanks (blanks ++ seed ++ '\x00' :: behind)).Gives blanks.length (some blanks.length) := by
  obtain ⟨c, rest, rfl, visible⟩ := starts
  have nonNul : c ≠ '\x00' := fun same => free (by simp [same])
  have stops : amongBlanks c = false := by simp [amongBlanks, visible, nonNul]
  have skips : (skipFrom amongBlanks (blanks ++ c :: (rest ++ '\x00' :: behind)) 0).Gives (0 + blanks.length)
      (some (0 + blanks.length)) :=
    skipFrom_gives (fun d member => by simp [amongBlanks, all d member]) stops 0
  rwa [Nat.zero_add, ← List.cons_append, ← List.append_assoc] at skips

theorem strndup_of_free (free : '\x00' ∉ text) (n : Nat) : Oil.Test.strndup text n = text.take n := by
  apply List.takeWhile_eq_self_iff.mpr
  intro c member
  rw [decide_eq_true_eq]
  intro nul
  exact free (nul ▸ List.mem_of_mem_take member)

theorem genSeedFromStringIn_behind {blanks seed : List Char} (free : '\x00' ∉ blanks ++ seed)
    (all : ∀ c ∈ blanks, isSeedBlank c = true) (starts : ∃ c rest, seed = c :: rest ∧ isSeedBlank c = false)
    (behind : List Char) (seedArray : SeedArray) :
    (eatBlanks (blanks ++ seed ++ '\x00' :: behind)).Gives blanks.length (some blanks.length) ∧
    (genSeedFromStringIn (blanks ++ seed ++ '\x00' :: behind) seedArray).Gives (blanks.length + seed.length)
      (genSeedFromString seedArray (blanks ++ seed)) := by
  have held : StringAt '\x00' (blanks ++ seed ++ '\x00' :: behind) blanks.length seed := by
    have whole : StringAt '\x00' (blanks ++ seed ++ '\x00' :: behind) 0 (blanks ++ seed) := ⟨free, behind, rfl⟩
    have later := whole.advance
    rwa [Nat.zero_add] at later
  have skipped := eatBlanks_gives free all starts behind
  have stripped : (blanks ++ seed).dropWhile isSeedBlank = seed := by
    obtain ⟨c, rest, rfl, visible⟩ := starts
    rw [List.dropWhile_append_of_pos all, List.dropWhile_cons_of_neg (by simp [visible])]
  refine ⟨skipped, ?_⟩
  rw [genSeedFromString, stripped, genSeedFromStringIn]
  refine (skipped.mono (Nat.le_add_right _ _)).bind ((held.strncmp (by decide : '\x00' ∉ seedTag)).bind ?_)
  have tagLength : seedTag.length = 4 := rfl
  rw [tagLength]
  by_cases tagged : seed.take 4 = seedTag
  · have long : 4 ≤ seed.length := by
      have := congrArg List.length tagged
      rw [List.length_take, tagLength] at this
      omega
    have words := held.drop 4 long
    have same : blanks.length + 4 + (seed.drop 4).length = blanks.length + seed.length := by
      rw [List.length_drop]
      omega
    have length := words.strlen
    rw [same] at length
    simp only [tagged, decide_true, if_true]
    refine length.bind ?_
    by_cases enough : seedArrayLen * 8 ≤ (seed.drop 4).length
    · have copied := copySeedWords_gives words enough seedArray
      rw [same] at copied
      rw [if_pos enough, if_pos enough]
      refine copied.bind ((held.strndup (4 + seedArrayLen * 8)).bind ?_)
      rw [strndup_of_free held.free]
      exact gives_pure _ _
    · rw [if_neg enough, if_neg enough]
      exact seedError_gives held
  · simp only [tagged, decide_false, Bool.false_eq_true, if_false]
    exact seedError_gives held

/-- Where there is something to find behind the blanks, the code in memory does what is said of the
string, and reads no more. -/
theorem genSeedFromStringIn_gives {text : List Char} (free : '\x00' ∉ text)
    (visible : ∃ c ∈ text, isSeedBlank c = false)
    (behind : List Char) (seedArray : SeedArray) :
    (eatBlanks (text ++ '\x00' :: behind)).result = some (text.takeWhile isSeedBlank).length ∧
    (genSeedFromStringIn (text ++ '\x00' :: behind) seedArray).Gives text.length
      (genSeedFromString seedArray text) := by
  have parts : text.takeWhile isSeedBlank ++ text.dropWhile isSeedBlank = text := List.takeWhile_append_dropWhile
  have starts : ∃ c rest, text.dropWhile isSeedBlank = c :: rest ∧ isSeedBlank c = false := by
    obtain ⟨c, member, visible⟩ := visible
    cases seed : text.dropWhile isSeedBlank with
    | nil =>
        have blank := List.dropWhile_eq_nil_iff.mp seed c member
        rw [visible] at blank
        contradiction
    | cons d rest =>
        have first := List.head?_dropWhile_not isSeedBlank text
        rw [seed] at first
        exact ⟨d, rest, rfl, first⟩
  obtain ⟨skipped, gives⟩ := genSeedFromStringIn_behind (by rwa [parts])
    (fun d member => List.mem_takeWhile_imp member) starts behind seedArray
  rw [← List.length_append, parts] at gives
  rw [parts] at skipped
  exact ⟨skipped.result, gives⟩

/-- The bytes behind a seed string stay unread exactly if it does not consist of blanks: the NUL passes
for one of them. -/
theorem reads_inside_iff {text : List Char} (free : '\x00' ∉ text) (behind : List Char) (seedArray : SeedArray) :
    ReadsInside seedArray text behind ↔ ∃ c ∈ text, isSeedBlank c = false := by
  constructor
  · intro inside
    by_contra blank
    have all : ∀ c ∈ text ++ ['\x00'], amongBlanks c = true := by
      intro c member
      rcases List.mem_append.mp member with inText | nul
      · cases visible : isSeedBlank c with
        | true => simp [amongBlanks, visible]
        | false => exact absurd ⟨c, inText, visible⟩ blank
      · simp [amongBlanks, List.mem_singleton.mp nul]
    have read := mem_skipFrom_reads all behind 0
    rw [List.append_assoc, List.singleton_append, List.length_append, List.length_singleton] at read
    have bound := inside.inside _ (mem_reads_bind read)
    omega
  · intro visible
    obtain ⟨skipped, gives⟩ := genSeedFromStringIn_gives free visible behind seedArray
    exact ⟨skipped, gives.inside⟩

/-- Blanks, a whole seed and more digits than it needs. -/
def longSeed : List Char := " \tR02S0000000100000002deadbeefffffffff0123".toList

theorem reads_inside_long : ReadsInside (fun _ => 0) longSeed "R02S".toList ∧
    ((genSeedFromStringIn (longSeed ++ '\x00' :: "R02S".toList) fun _ => 0).result.map Prod.fst) =
      some "R02S0000000100000002deadbeefffffffff".toList :=
  ⟨(reads_inside_iff (by decide +kernel) _ _).mpr ⟨'R', by decide +kernel, by decide⟩, by decide +kernel⟩

/-- A blank is skipped, and the NUL behind it. -/
theorem blank_overrun :
    ¬ ∀ (text behind : List Char) (seedArray : SeedArray), '\x00' ∉ text → text ≠ [] →
      ReadsInside seedArray text behind := by
  intro always
  have inside := (always [' '] [] (fun _ => 0) (by decide) (by decide)).inside 2 (by decide)
  contradiction

end Inside

end Oil.Test
