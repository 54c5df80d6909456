import Oil.Test.Numerals
import Mathlib.Logic.Function.Basic

namespace Oil.Test

/-! # Seeds of the random generator

`oiltestconfig.c` writes a seed it has drawn as a string, and reads such strings back.
Buffers are lists of characters with NULs in them. -/

def seedArrayLen : Nat := 4

/-- The words `g_rand_new_with_seed_array` is given. -/
abbrev SeedArray : Type := Fin 4 → UInt32

/-- `%x` -/
def hexDigits (r : UInt32) : List Char := Nat.toDigits 16 r.toNat

/-- `snprintf (buffer + offset, 9, "%x", r)`. -/
def snprintfHex (buffer : List Char) (offset : Nat) (r : UInt32) : List Char :=
  let written := (hexDigits r).take 8 ++ ['\x00']
  buffer.take offset ++ (written ++ buffer.drop (offset + written.length))

/-- The string in a buffer, cut to `n` characters as `g_strndup` does. -/
def strndup (buffer : List Char) (n : Nat) : List Char := (buffer.take n).takeWhile (· ≠ '\x00')

def seedTag : List Char := ['R', '0', '2', 'S']

/-- `_gen_seed_auto`, given the words that `g_random_int` draws. -/
def genSeedAuto (drawn : SeedArray) : List Char × SeedArray :=
  let seedStr := (List.finRange 4).foldl (fun seedStr i => snprintfHex seedStr (4 + 8 * i.val) (drawn i))
    (seedTag ++ List.replicate 33 '\x00')
  (strndup seedStr (4 + seedArrayLen * 8), drawn)

def isSeedBlank (c : Char) : Bool :=
  c = ' ' || c = '\t' || c = '\x0b' || c = '\r' || c = '\n' || c = '\x0c'

def takeSign : List Char → Bool × List Char
  | '-' :: rest => (true, rest)
  | '+' :: rest => (false, rest)
  | text => (false, text)

def dropHexPrefix : List Char → List Char
  | '0' :: 'x' :: rest | '0' :: 'X' :: rest => rest
  | text => text

/-- `g_ascii_strtoull` with base 16. -/
def asciiStrtoullHex (text : List Char) : Nat :=
  let (negative, text) := takeSign (text.dropWhile isSeedBlank)
  let value := min (digitsValue 16 (dropHexPrefix text) 0) (2 ^ 64 - 1)
  if negative then (2 ^ 64 - value) % 2 ^ 64 else value

/-- The loop of `_gen_seed_from_string`: it writes every word to the first element. -/
def readSeedWords (s : List Char) (seedArray : SeedArray) : SeedArray :=
  (List.range seedArrayLen).foldl (fun seedArray i =>
    Function.update seedArray 0 (UInt32.ofNat (asciiStrtoullHex ((s.drop (8 * i)).take 8)))) seedArray

/-- `_gen_seed_from_string`, given what its local array holds before it is written.  There is
no result where it aborts, or where it runs over the end of a blank string. -/
def genSeedFromString (seedArray : SeedArray) (seedStr : List Char) : Option (List Char × SeedArray) :=
  let seedStr := seedStr.dropWhile isSeedBlank
  if seedStr.take 4 = seedTag then
    let s := seedStr.drop 4
    if seedArrayLen * 8 ≤ s.length then
      some (strndup seedStr (4 + seedArrayLen * 8), readSeedWords s seedArray)
    else none
  else none

/-- A seed that was drawn is accepted when it is given back, and seeds the generator with the
words that were drawn. -/
def Replays (drawn seedArray : SeedArray) : Prop :=
  (genSeedFromString seedArray (genSeedAuto drawn).1).map Prod.snd = some drawn

section Writing

theorem hexDigits_length_le (word : UInt32) : (hexDigits word).length ≤ 8 :=
  (Nat.length_toDigits_le_iff (by decide) (by decide)).mpr word.toNat_lt

theorem hexDigits_length_eq_iff (word : UInt32) : (hexDigits word).length = 8 ↔ 2 ^ 28 ≤ word.toNat := by
  have seven : (hexDigits word).length ≤ 7 ↔ word.toNat < 2 ^ 28 :=
    Nat.length_toDigits_le_iff (by decide) (by decide)
  have := hexDigits_length_le word
  omega

theorem nul_not_mem_hexDigits (word : UInt32) : '\x00' ∉ hexDigits word := by
  intro member
  have digit : digitValue '\x00' < 16 :=
    digitValue_of_mem_toDigits (by decide) (Nat.le_refl _) word.toNat _ member
  exact absurd digit (by decide)

/-- A field of the seed string: the digits, filled up with NULs. -/
def seedField (word : UInt32) : List Char :=
  hexDigits word ++ List.replicate (8 - (hexDigits word).length) '\x00'

theorem seedField_length (word : UInt32) : (seedField word).length = 8 := by
  have := hexDigits_length_le word
  simp only [seedField, List.length_append, List.length_replicate]
  omega

theorem snprintfHex_blank (front : List Char) (offset : Nat) (word : UInt32) (blank : Nat)
    (length : front.length = offset) :
    snprintfHex (front ++ List.replicate (blank + 9) '\x00') offset word =
      front ++ seedField word ++ List.replicate (blank + 1) '\x00' := by
  subst length
  have short := hexDigits_length_le word
  obtain ⟨fill, total⟩ := Nat.exists_eq_add_of_le short
  have whole : (hexDigits word).take 8 = hexDigits word := List.take_of_length_le short
  have rest : blank + 9 - ((hexDigits word).length + 1) = fill + blank := by omega
  have filled : 8 - (hexDigits word).length = fill := by omega
  have nuls : List.replicate fill '\x00' ++ List.replicate (blank + 1) '\x00' =
      '\x00' :: List.replicate (fill + blank) '\x00' := by
    rw [List.replicate_append_replicate, ← Nat.add_assoc, List.replicate_succ]
  rw [snprintfHex, whole, seedField, filled, List.take_left, List.length_append, List.length_singleton,
    List.drop_length_add_append, List.drop_replicate, rest]
  simp only [List.append_assoc, nuls, List.singleton_append]

/-- The buffer of `_gen_seed_auto` at the end of its loop. -/
theorem genSeedAuto_fst (drawn : SeedArray) : (genSeedAuto drawn).1 =
    strndup (seedTag ++ (seedField (drawn 0) ++ (seedField (drawn 1) ++
      (seedField (drawn 2) ++ (seedField (drawn 3) ++ ['\x00']))))) 36 := by
  have first := snprintfHex_blank seedTag 4 (drawn 0) 24 rfl
  have second := snprintfHex_blank (seedTag ++ seedField (drawn 0)) 12 (drawn 1) 16
    (by rw [List.length_append, seedField_length]; rfl)
  have third := snprintfHex_blank (seedTag ++ seedField (drawn 0) ++ seedField (drawn 1)) 20 (drawn 2) 8
    (by simp only [List.length_append, seedField_length]; rfl)
  have fourth := snprintfHex_blank
    (seedTag ++ seedField (drawn 0) ++ seedField (drawn 1) ++ seedField (drawn 2)) 28 (drawn 3) 0
    (by simp only [List.length_append, seedField_length]; rfl)
  have rounds : List.finRange 4 = [0, 1, 2, 3] := by decide
  simp only [genSeedAuto, rounds, List.foldl_cons, List.foldl_nil]
  change strndup (snprintfHex (snprintfHex (snprintfHex (snprintfHex
    (seedTag ++ List.replicate (24 + 9) '\x00') 4 (drawn 0)) 12 (drawn 1)) 20 (drawn 2)) 28 (drawn 3)) 36 = _
  rw [first]
  change strndup (snprintfHex (snprintfHex (snprintfHex (seedTag ++ seedField (drawn 0) ++
    List.replicate (16 + 9) '\x00') 12 (drawn 1)) 20 (drawn 2)) 28 (drawn 3)) 36 = _
  rw [second]
  change strndup (snprintfHex (snprintfHex (seedTag ++ seedField (drawn 0) ++ seedField (drawn 1) ++
    List.replicate (8 + 9) '\x00') 20 (drawn 2)) 28 (drawn 3)) 36 = _
  rw [third]
  change strndup (snprintfHex (seedTag ++ seedField (drawn 0) ++ seedField (drawn 1) ++ seedField (drawn 2) ++
    List.replicate (0 + 9) '\x00') 28 (drawn 3)) 36 = _
  rw [fourth]
  simp only [List.append_assoc]
  rfl

/-- The digits of all four words, as far as they are written in full. -/
def seedDigits (drawn : SeedArray) : List Char :=
  hexDigits (drawn 0) ++ (hexDigits (drawn 1) ++ (hexDigits (drawn 2) ++ hexDigits (drawn 3)))

theorem strndup_of_length {text rest : List Char} {n : Nat} (noNul : ∀ c ∈ text, c ≠ '\x00')
    (length : text.length = n) : strndup (text ++ rest) n = text := by
  rw [strndup, List.take_left' length]
  exact List.takeWhile_eq_self_iff.mpr fun c member => decide_eq_true (noNul c member)

section Full

variable {drawn : SeedArray} (full : ∀ i, 2 ^ 28 ≤ (drawn i).toNat)
include full

theorem hexDigits_eight (i : Fin 4) : (hexDigits (drawn i)).length = 8 :=
  (hexDigits_length_eq_iff _).mpr (full i)

theorem seedDigits_length : (seedDigits drawn).length = 32 := by
  simp only [seedDigits, List.length_append, hexDigits_eight full]

theorem strndup_seedDigits (rest : List Char) :
    strndup (seedTag ++ seedDigits drawn ++ rest) (4 + seedArrayLen * 8) = seedTag ++ seedDigits drawn := by
  have digits (i : Fin 4) : ∀ c ∈ hexDigits (drawn i), c ≠ '\x00' := fun c member nul =>
    nul_not_mem_hexDigits (drawn i) (nul ▸ member)
  refine strndup_of_length ?_ ?_
  · simp only [seedDigits, List.forall_mem_append]
    exact ⟨by simp [seedTag], digits 0, digits 1, digits 2, digits 3⟩
  · rw [List.length_append, seedDigits_length full]
    rfl

theorem genSeedAuto_full : (genSeedAuto drawn).1 = seedTag ++ seedDigits drawn := by
  have field (i : Fin 4) : seedField (drawn i) = hexDigits (drawn i) := by
    rw [seedField, hexDigits_eight full i, Nat.sub_self, List.replicate_zero, List.append_nil]
  have whole : seedTag ++ (hexDigits (drawn 0) ++ (hexDigits (drawn 1) ++
      (hexDigits (drawn 2) ++ (hexDigits (drawn 3) ++ ['\x00'])))) =
      seedTag ++ seedDigits drawn ++ ['\x00'] := by
    simp only [seedDigits, List.append_assoc]
  rw [genSeedAuto_fst, field 0, field 1, field 2, field 3, whole]
  exact strndup_seedDigits full _

end Full

theorem genSeedAuto_short {drawn : SeedArray} {i : Fin 4} (short : (drawn i).toNat < 2 ^ 28) :
    (genSeedAuto drawn).1.length < 36 := by
  have filled : '\x00' ∈ seedField (drawn i) := by
    have := (hexDigits_length_eq_iff (drawn i)).not.mpr (Nat.not_le_of_lt short)
    have := hexDigits_length_le (drawn i)
    refine List.mem_append_right _ (List.mem_replicate.mpr ⟨by omega, rfl⟩)
  let body := seedTag ++ (seedField (drawn 0) ++ (seedField (drawn 1) ++
    (seedField (drawn 2) ++ seedField (drawn 3))))
  have length : body.length = 36 := by
    simp only [body, List.length_append, seedField_length]
    rfl
  have inside : '\x00' ∈ body := by
    simp only [body, List.mem_append]
    have cases : i = 0 ∨ i = 1 ∨ i = 2 ∨ i = 3 := by omega
    rcases cases with rfl | rfl | rfl | rfl
    · exact .inr (.inl filled)
    · exact .inr (.inr (.inl filled))
    · exact .inr (.inr (.inr (.inl filled)))
    · exact .inr (.inr (.inr (.inr filled)))
  have whole : seedTag ++ (seedField (drawn 0) ++ (seedField (drawn 1) ++
      (seedField (drawn 2) ++ (seedField (drawn 3) ++ ['\x00'])))) = body ++ ['\x00'] := by
    simp only [body, List.append_assoc]
  rw [genSeedAuto_fst, whole, strndup, List.take_left' length]
  rw [← length]
  refine Nat.lt_of_le_of_ne (List.takeWhile_prefix _).length_le fun same => ?_
  have all := List.takeWhile_eq_self_iff.mp ((List.takeWhile_prefix _).eq_of_length same)
  exact absurd (all _ inside) (by decide)

end Writing

section Reading

variable {drawn seedArray : SeedArray}

theorem asciiStrtoullHex_hexDigits {word : UInt32} (full : 2 ^ 28 ≤ word.toNat) :
    asciiStrtoullHex (hexDigits word) = word.toNat := by
  have value : digitsValue 16 (hexDigits word) 0 = word.toNat :=
    digitsValue_toDigits (by decide) (Nat.le_refl _) _
  have digit : ∀ c ∈ hexDigits word, digitValue c < 16 :=
    digitValue_of_mem_toDigits (by decide) (Nat.le_refl _) _
  have notZero : (hexDigits word).head? ≠ some '0' := head_toDigits_ne_zero (by decide) (by omega)
  have bound := word.toNat_lt
  cases text : hexDigits word with
  | nil => exact absurd text Nat.toDigits_ne_nil
  | cons c rest =>
      rw [text] at value digit notZero
      have first := digit c (.head _)
      have notBlank : ¬ isSeedBlank c = true := by
        intro blank
        simp only [isSeedBlank, Bool.or_eq_true, decide_eq_true_eq] at blank
        rcases blank with ((((rfl | rfl) | rfl) | rfl) | rfl) | rfl <;> exact absurd first (by decide)
      have unsigned : takeSign (c :: rest) = (false, c :: rest) := by
        unfold takeSign
        split
        case h_1 same => exact absurd ((List.cons.inj same).1 ▸ first) (by decide)
        case h_2 same => exact absurd ((List.cons.inj same).1 ▸ first) (by decide)
        case h_3 => rfl
      have unprefixed : dropHexPrefix (c :: rest) = c :: rest := by
        unfold dropHexPrefix
        split
        case h_1 same => exact absurd (congrArg some (List.cons.inj same).1) notZero
        case h_2 same => exact absurd (congrArg some (List.cons.inj same).1) notZero
        case h_3 => rfl
      simp only [asciiStrtoullHex, List.dropWhile_cons_of_neg notBlank, unsigned, unprefixed, value,
        Bool.false_eq_true, ↓reduceIte]
      omega

section Full

variable (full : ∀ i, 2 ^ 28 ≤ (drawn i).toNat)
include full

/-- Every round of the loop writes to the first element, so the last word stays there and
the others keep what they held. -/
theorem readSeedWords_seedDigits :
    readSeedWords (seedDigits drawn) seedArray = Function.update seedArray 0 (drawn 3) := by
  have last : ((seedDigits drawn).drop (8 * 3)).take 8 = hexDigits (drawn 3) := by
    have front : (hexDigits (drawn 0) ++ hexDigits (drawn 1) ++ hexDigits (drawn 2)).length = 8 * 3 := by
      simp only [List.length_append, hexDigits_eight full]
    rw [seedDigits, ← List.append_assoc, ← List.append_assoc, List.drop_left' front]
    exact List.take_of_length_le (Nat.le_of_eq (hexDigits_eight full 3))
  have rounds : List.range seedArrayLen = [0, 1, 2, 3] := by decide
  simp only [readSeedWords, rounds, List.foldl_cons, List.foldl_nil, Function.update_idem, last,
    asciiStrtoullHex_hexDigits (full 3), UInt32.ofNat_toNat]

theorem genSeedFromString_full :
    genSeedFromString seedArray (genSeedAuto drawn).1 =
      some ((genSeedAuto drawn).1, Function.update seedArray 0 (drawn 3)) := by
  have trimmed : (seedTag ++ seedDigits drawn).dropWhile isSeedBlank = seedTag ++ seedDigits drawn :=
    List.dropWhile_cons_of_neg (by decide)
  have text := strndup_seedDigits full []
  have tag : (seedTag ++ seedDigits drawn).take 4 = seedTag := List.take_left' rfl
  have digits : (seedTag ++ seedDigits drawn).drop 4 = seedDigits drawn := List.drop_left' rfl
  rw [List.append_nil] at text
  rw [genSeedAuto_full full, genSeedFromString]
  simp only [trimmed, tag, digits, text, ↓reduceIte, readSeedWords_seedDigits full]
  exact if_pos (Nat.le_of_eq (seedDigits_length full).symm)

end Full

theorem genSeedFromString_short {i : Fin 4} (short : (drawn i).toNat < 2 ^ 28) :
    genSeedFromString seedArray (genSeedAuto drawn).1 = none := by
  have length := genSeedAuto_short short
  rw [genSeedFromString]
  split
  · rw [if_neg]
    have trimmed := (List.dropWhile_suffix isSeedBlank (l := (genSeedAuto drawn).1)).length_le
    rw [List.length_drop]
    show ¬ 32 ≤ _
    omega
  · rfl

theorem replays_iff (drawn seedArray : SeedArray) : Replays drawn seedArray ↔
    (∀ i, 2 ^ 28 ≤ (drawn i).toNat) ∧ drawn 0 = drawn 3 ∧ ∀ i, i ≠ 0 → seedArray i = drawn i := by
  by_cases full : ∀ i, 2 ^ 28 ≤ (drawn i).toNat
  · rw [Replays, genSeedFromString_full full, and_iff_right full]
    simp only [Option.map_some, Option.some.injEq]
    constructor
    · intro same
      refine ⟨?_, fun i other => ?_⟩
      · have first := congrFun same 0
        rw [Function.update_self] at first
        exact first.symm
      · have here := congrFun same i
        rwa [Function.update_of_ne other] at here
    · rintro ⟨first, others⟩
      funext i
      by_cases zero : i = 0
      · rw [zero, Function.update_self, first]
      · rw [Function.update_of_ne zero, others i zero]
  · refine iff_of_false ?_ fun holds => full holds.1
    obtain ⟨i, short⟩ := not_forall.mp full
    rw [Replays, genSeedFromString_short (Nat.lt_of_not_le short)]
    simp

/-- A seed replays exactly when all its words are written with eight digits, its last word is
the first one too, and the array happens to hold the other three words already; no seed
replays whatever the array holds. -/
theorem seed_replays_exactly_when (drawn : SeedArray) :
    (∀ seedArray, Replays drawn seedArray ↔
      (∀ i, 2 ^ 28 ≤ (drawn i).toNat) ∧ drawn 0 = drawn 3 ∧ ∀ i, i ≠ 0 → seedArray i = drawn i) ∧
    ¬ ∀ seedArray, Replays drawn seedArray := by
  refine ⟨replays_iff drawn, fun always => ?_⟩
  have held := ((replays_iff drawn _).mp (always fun i => drawn i + 1)).2.2 1 (by decide)
  simp at held

/-- The words `10000001` to `10000004`, read into an array of zeros. -/
theorem not_replays : ¬ ∀ drawn seedArray, Replays drawn seedArray := by
  intro always
  have replayed := always (fun i => UInt32.ofNat (0x10000001 + i.val)) fun _ => 0
  have second := congrArg (Option.map fun words => words 1) replayed
  revert second
  decide +kernel

end Reading

end Oil.Test
