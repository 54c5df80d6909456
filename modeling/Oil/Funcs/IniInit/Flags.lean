import Oil.Data.Words
import Oil.Funcs.IniInit.Activate

namespace Oil.Funcs

open Oil.Data

/-! # The flags of a section

The name of a section is a list of CPU flags with blanks between them. -/

variable {descriptions : List (List UInt8)} {text current name : List UInt8} {parse : FlagsParse} {bit : Nat}

/-- What the loop of `parse_flags_string` makes of the rest of the string, round by round, with what
the code behind the loop does.  There is no result where the loop does not end. -/
inductive FlagsLoop (descriptions : List (List UInt8)) : (current : List UInt8) → (parse result : FlagsParse) → Prop
  | last {current : List UInt8} {parse : FlagsParse} (unbroken : current.findIdx? isBlank = none) :
      FlagsLoop descriptions current parse (if current = [] then parse else parse.add descriptions current)
  | round {current : List UInt8} {parse result : FlagsParse} {len : Nat} (next : current.findIdx? isBlank = some len)
      (rest : FlagsLoop descriptions ((current.drop len).dropWhile isBlank)
        (parse.add descriptions (current.take len)) result) :
      FlagsLoop descriptions current parse result

/-- The names in a section string. -/
def flagNames (text : List UInt8) : List (List UInt8) := wordsBetween isBlank text

def FlagsParse.addAll (parse : FlagsParse) (descriptions : List (List UInt8)) (names : List (List UInt8)) :
    FlagsParse :=
  names.foldl (fun parse name => parse.add descriptions name) parse

section Splitting

/-- Where `strpbrk` finds a blank, the name before it is split off. -/
theorem split_at_blank {len : Nat} (next : current.findIdx? isBlank = some len) :
    ∃ c rest, current = current.take len ++ c :: rest ∧ isBlank c = true ∧
      (∀ c ∈ current.take len, isBlank c = false) ∧ current.drop len = c :: rest := by
  obtain ⟨inside, blank, before⟩ := List.findIdx?_eq_some_iff_getElem.mp next
  have rest : current.drop len = current[len] :: current.drop (len + 1) := List.drop_eq_getElem_cons inside
  refine ⟨current[len], current.drop (len + 1), ?_, blank, fun c member => ?_, rest⟩
  · rw [← rest, List.take_append_drop]
  · obtain ⟨i, bound, rfl⟩ := List.mem_iff_getElem.mp member
    rw [List.length_take] at bound
    rw [List.getElem_take]
    simpa using before i (by omega)

theorem starts_dropWhile (text : List UInt8) :
    ∀ c, (text.dropWhile isBlank).head? = some c → isBlank c = false := by
  intro c first
  have stopped := List.head?_dropWhile_not isBlank text
  rwa [first] at stopped

/-- The name before a blank is the first one, and the string behind the blanks is shorter. -/
theorem flagNames_of_blank {len : Nat} (next : current.findIdx? isBlank = some len)
    (starts : ∀ c, current.head? = some c → isBlank c = false) :
    flagNames current = current.take len :: flagNames ((current.drop len).dropWhile isBlank) ∧
      ((current.drop len).dropWhile isBlank).length < current.length := by
  obtain ⟨c, rest, parts, blank, inside, behind⟩ := split_at_blank next
  have nonempty : current.take len ≠ [] := by
    intro empty
    rw [empty, List.nil_append] at parts
    have first := starts c (by rw [parts]; rfl)
    rw [blank] at first
    contradiction
  constructor
  · conv_lhs => rw [parts]
    rw [flagNames, flagNames, wordsBetween_cons nonempty inside blank, behind, wordsBetween_dropWhile,
      wordsBetween_blank blank]
  · have dropped : ((current.drop len).dropWhile isBlank).length ≤ rest.length := by
      rw [behind, List.dropWhile_cons_of_pos blank]
      exact (List.dropWhile_sublist _).length_le
    have whole := congrArg List.length parts
    rw [List.length_append, List.length_cons] at whole
    omega

/-- The rounds take the names off one by one: each leaves a string that starts with the next one. -/
theorem flagsLoop_names (fuel : Nat) (enough : current.length ≤ fuel)
    (starts : ∀ c, current.head? = some c → isBlank c = false) (parse : FlagsParse) :
    FlagsLoop descriptions current parse (parse.addAll descriptions (flagNames current)) ∧
      parseFlagsLoop descriptions fuel current parse = parse.addAll descriptions (flagNames current) := by
  induction fuel generalizing current parse with
  | zero =>
      obtain rfl := List.eq_nil_of_length_eq_zero (Nat.le_zero.mp enough)
      exact ⟨.last rfl, rfl⟩
  | succ fuel ih =>
      rw [parseFlagsLoop]
      cases next : current.findIdx? isBlank with
      | none =>
          have last : FlagsLoop descriptions current parse _ := .last next
          dsimp only
          by_cases empty : current = []
          · subst empty
            exact ⟨last, rfl⟩
          · have inside : ∀ c ∈ current, isBlank c = false := List.findIdx?_eq_none_iff.mp next
            rw [if_neg empty] at last ⊢
            rw [flagNames, wordsBetween_word empty inside]
            exact ⟨last, rfl⟩
      | some len =>
          obtain ⟨names, shorter⟩ := flagNames_of_blank next starts
          have bound : ((current.drop len).dropWhile isBlank).length ≤ fuel := by omega
          obtain ⟨loop, same⟩ := ih bound (starts_dropWhile _) (parse.add descriptions (current.take len))
          rw [names]
          exact ⟨.round next loop, same⟩

end Splitting

section Flags

theorem oilCpuStringToFlag_eq_zero_iff : oilCpuStringToFlag descriptions name = 0 ↔ name ∉ descriptions := by
  rw [oilCpuStringToFlag]
  cases found : descriptions.findIdx? (· = name) with
  | none =>
      rw [List.findIdx?_eq_none_iff] at found
      exact iff_of_true rfl fun member => by simpa using found name member
  | some i =>
      obtain ⟨inside, same, _⟩ := List.findIdx?_eq_some_iff_getElem.mp found
      have member : name ∈ descriptions := (of_decide_eq_true same) ▸ List.getElem_mem inside
      exact iff_of_false (Nat.two_pow_pos i).ne' (not_not.mpr member)

/-- A name stands for the bit of its place in the table. -/
theorem testBit_oilCpuStringToFlag (distinct : descriptions.Nodup) :
    (oilCpuStringToFlag descriptions name).testBit bit = true ↔ descriptions[bit]? = some name := by
  rw [oilCpuStringToFlag]
  cases found : descriptions.findIdx? (· = name) with
  | none =>
      rw [List.findIdx?_eq_none_iff] at found
      refine iff_of_false (by simp) fun there => ?_
      simpa using found name (List.mem_of_getElem? there)
  | some i =>
      obtain ⟨inside, same, _⟩ := List.findIdx?_eq_some_iff_getElem.mp found
      have here : descriptions[i] = name := of_decide_eq_true same
      dsimp only
      rw [Nat.testBit_two_pow, decide_eq_true_eq]
      constructor
      · rintro rfl
        rw [List.getElem?_eq_getElem inside, here]
      · intro there
        obtain ⟨bound, same⟩ := List.getElem?_eq_some_iff.mp there
        exact (List.getElem_inj distinct).mp (here.trans same.symm)

theorem FlagsParse.add_flags (parse : FlagsParse) (name : List UInt8) :
    (parse.add descriptions name).flags = parse.flags ||| oilCpuStringToFlag descriptions name := by
  rw [add]
  split
  case isTrue unknown => rw [unknown, Nat.or_zero]
  case isFalse => rfl

theorem FlagsParse.add_ret (parse : FlagsParse) (name : List UInt8) :
    (parse.add descriptions name).ret = true ↔ parse.ret = true ∧ name ∈ descriptions := by
  rw [add]
  split
  case isTrue unknown => simp [oilCpuStringToFlag_eq_zero_iff.mp unknown]
  case isFalse known =>
      rw [oilCpuStringToFlag_eq_zero_iff, not_not] at known
      simp [known]

theorem FlagsParse.addAll_flags (parse : FlagsParse) (names : List (List UInt8)) :
    (parse.addAll descriptions names).flags =
      (names.map (oilCpuStringToFlag descriptions)).foldl (· ||| ·) parse.flags := by
  induction names generalizing parse with
  | nil => rfl
  | cons name names ih =>
      rw [List.map_cons, List.foldl_cons, ← add_flags, ← ih]
      rfl

theorem FlagsParse.addAll_ret (parse : FlagsParse) (names : List (List UInt8)) :
    (parse.addAll descriptions names).ret = true ↔ parse.ret = true ∧ ∀ name ∈ names, name ∈ descriptions := by
  induction names generalizing parse with
  | nil => simp [addAll]
  | cons name names ih =>
      rw [List.forall_mem_cons, ← and_assoc, ← add_ret, ← ih]
      rfl

theorem testBit_foldl_or (flags : List Nat) (start : Nat) :
    (flags.foldl (· ||| ·) start).testBit bit = true ↔
      start.testBit bit = true ∨ ∃ flag ∈ flags, flag.testBit bit = true := by
  induction flags generalizing start with
  | nil => simp
  | cons flag flags ih => simp [ih, Nat.testBit_or, or_assoc]

end Flags

/-- What a section string says: its names are all known, and their bits. -/
structure FlagsSaid (descriptions : List (List UInt8)) (names : List (List UInt8)) (parse : FlagsParse) : Prop where
  ret : parse.ret = true ↔ ∀ name ∈ names, name ∈ descriptions
  flags : parse.flags = ((names.filter (· ∈ descriptions)).map (oilCpuStringToFlag descriptions)).foldl (· ||| ·) 0
  bits : ∀ bit, parse.flags.testBit bit = true ↔ ∃ name ∈ names, descriptions[bit]? = some name
  fits : parse.flags < 2 ^ descriptions.length

theorem flagsSaid_addAll (distinct : descriptions.Nodup) (names : List (List UInt8)) :
    FlagsSaid descriptions names ((FlagsParse.mk true 0 []).addAll descriptions names) := by
  have bits (bit : Nat) : ((FlagsParse.mk true 0 []).addAll descriptions names).flags.testBit bit = true ↔
      ∃ name ∈ names, descriptions[bit]? = some name := by
    simp [FlagsParse.addAll_flags, testBit_foldl_or, testBit_oilCpuStringToFlag distinct]
  refine ⟨by simp [FlagsParse.addAll_ret], ?_, bits, ?_⟩
  · rw [FlagsParse.addAll_flags]
    apply Nat.eq_of_testBit_eq
    intro bit
    rw [Bool.eq_iff_iff, testBit_foldl_or, testBit_foldl_or]
    simp only [List.mem_map, List.mem_filter, decide_eq_true_eq, exists_exists_and_eq_and,
      testBit_oilCpuStringToFlag distinct]
    constructor
    · rintro (zero | ⟨name, member, there⟩)
      · exact .inl zero
      · exact .inr ⟨name, ⟨member, List.mem_of_getElem? there⟩, there⟩
    · rintro (zero | ⟨name, ⟨member, _⟩, there⟩)
      · exact .inl zero
      · exact .inr ⟨name, member, there⟩
  · apply Nat.lt_pow_two_of_testBit
    intro bit beyond
    rw [← Bool.not_eq_true, bits bit, List.getElem?_eq_none beyond]
    simp

/-- `parse_flags_string` ends, and what it says depends on no more than which names there are. -/
theorem flags_parsed (distinct : descriptions.Nodup) (starts : ∀ c, text.head? = some c → isBlank c = false) :
    FlagsLoop descriptions text ⟨true, 0, []⟩ (parseFlagsString descriptions text) ∧
    FlagsSaid descriptions (flagNames text) (parseFlagsString descriptions text) ∧
    ∀ other : List UInt8, (∀ c, other.head? = some c → isBlank c = false) →
      (∀ name, name ∈ flagNames other ↔ name ∈ flagNames text) →
      (parseFlagsString descriptions other).ret = (parseFlagsString descriptions text).ret ∧
      (parseFlagsString descriptions other).flags = (parseFlagsString descriptions text).flags := by
  have said {text : List UInt8} (starts : ∀ c, text.head? = some c → isBlank c = false) :
      FlagsLoop descriptions text ⟨true, 0, []⟩ (parseFlagsString descriptions text) ∧
      FlagsSaid descriptions (flagNames text) (parseFlagsString descriptions text) := by
    obtain ⟨loop, same⟩ := @flagsLoop_names descriptions text text.length (Nat.le_refl _) starts ⟨true, 0, []⟩
    rw [parseFlagsString, same]
    exact ⟨loop, flagsSaid_addAll distinct (flagNames text)⟩
  obtain ⟨loop, here⟩ := said starts
  refine ⟨loop, here, fun other otherStarts same => ?_⟩
  obtain ⟨_, there⟩ := said otherStarts
  constructor
  · rw [Bool.eq_iff_iff, there.ret, here.ret]
    simp only [same]
  · apply Nat.eq_of_testBit_eq
    intro bit
    rw [Bool.eq_iff_iff, there.bits, here.bits]
    simp only [same]

theorem flags_parsed_mmx_sse : FlagsSaid ["mmx".toUTF8.toList, "sse".toUTF8.toList]
    ["sse".toUTF8.toList, "mmx".toUTF8.toList] (parseFlagsString ["mmx".toUTF8.toList, "sse".toUTF8.toList]
      "sse \t mmx".toUTF8.toList) := by
  have distinct : ["mmx".toUTF8.toList, "sse".toUTF8.toList].Nodup := by decide +kernel
  have starts : ∀ c, "sse \t mmx".toUTF8.toList.head? = some c → isBlank c = false := by decide +kernel
  have names : flagNames "sse \t mmx".toUTF8.toList = ["sse".toUTF8.toList, "mmx".toUTF8.toList] := by decide +kernel
  have said := (flags_parsed distinct starts).2.1
  rwa [names] at said

end Oil.Funcs
