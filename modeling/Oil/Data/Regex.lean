import Mathlib.Data.List.TakeWhile

namespace Oil.Data

/-! # Backtracking regular expressions

The fragment of Perl-compatible regular expressions without general repetition:
a repeated item is a single character of a class.  Matching lists every way to
match a prefix of the input, in the order in which a backtracking matcher tries
them, so the first one that lets the rest of the pattern match is the match. -/

inductive Regex where
  | empty
  | char (class_ : Char → Bool)
  | seq (first second : Regex)
  | alt (first second : Regex)
  /-- greedy `?` -/
  | opt (item : Regex)
  /-- greedy `+` -/
  | plus (class_ : Char → Bool)
  /-- possessive `*+`, which never gives back what it took -/
  | starPossessive (class_ : Char → Bool)
  /-- `(?P<name>...)` -/
  | group (name : String) (item : Regex)
  /-- `$`, which also stands before a newline that ends the subject -/
  | dollar

/-- What the named groups of a match captured, in order. -/
abbrev Captures := List (String × List Char)

namespace Regex

def text (chars : String) : Regex :=
  chars.toList.foldr (fun c rest => .seq (.char (· = c)) rest) .empty

/-- Every non-empty prefix of the input inside the class, longest first, with what remains. -/
def plusMatches (class_ : Char → Bool) : List Char → List (List Char)
  | [] => []
  | c :: input => if class_ c then plusMatches class_ input ++ [input] else []

/-- The ways to match a prefix of the input: what was captured, and what remains. -/
def run : Regex → List Char → List (Captures × List Char)
  | empty, input => [([], input)]
  | char class_, input =>
      match input with
      | [] => []
      | c :: rest => if class_ c then [([], rest)] else []
  | seq first second, input =>
      (run first input).flatMap fun (captures, rest) =>
        (run second rest).map fun (captures', rest) => (captures ++ captures', rest)
  | alt first second, input => run first input ++ run second input
  | opt item, input => run item input ++ [([], input)]
  | plus class_, input => (plusMatches class_ input).map fun rest => ([], rest)
  | starPossessive class_, input => [([], input.dropWhile class_)]
  | group name item, input =>
      (run item input).map fun (captures, rest) =>
        ((name, input.take (input.length - rest.length)) :: captures, rest)
  | dollar, input => if input = [] ∨ input = ['\n'] then [([], input)] else []

def firstMatch (pattern : Regex) (subject : List Char) : Option Captures :=
  (pattern.run subject).head?.map Prod.fst

/-! ## What a pattern takes -/

/-- One way for a pattern to match: it takes `word` off the input and leaves `rest`. -/
def Takes (pattern : Regex) (word : List Char) (captures : Captures) (rest : List Char) : Prop :=
  (captures, rest) ∈ pattern.run (word ++ rest)

variable {first second item : Regex} {class_ : Char → Bool} {name : String} {word rest input : List Char}
  {captures : Captures}

theorem mem_plusMatches : rest ∈ plusMatches class_ input ↔
    ∃ word, word ≠ [] ∧ (∀ c ∈ word, class_ c = true) ∧ input = word ++ rest := by
  induction input with
  | nil =>
      simp only [plusMatches, List.not_mem_nil, false_iff]
      rintro ⟨word, taken, _, split⟩
      exact taken (List.append_eq_nil_iff.mp split.symm).1
  | cons c input ih =>
      rw [plusMatches]
      split
      case isTrue inside =>
        rw [List.mem_append, ih, List.mem_singleton]
        constructor
        · rintro (⟨word, _, all, rfl⟩ | rfl)
          · exact ⟨c :: word, by simp, by simpa [inside] using all, rfl⟩
          · exact ⟨[c], by simp, by simpa using inside, rfl⟩
        · rintro ⟨word, taken, all, split⟩
          cases word with
          | nil => contradiction
          | cons c' word =>
              obtain ⟨rfl, rfl⟩ := List.cons.inj split
              cases word with
              | nil => exact .inr rfl
              | cons c' word => exact .inl ⟨_, by simp, fun x member => all x (.tail _ member), rfl⟩
      case isFalse outside =>
        simp only [List.not_mem_nil, false_iff]
        rintro ⟨word, taken, all, split⟩
        cases word with
        | nil => contradiction
        | cons c' word =>
            obtain ⟨rfl, _⟩ := List.cons.inj split
            exact outside (all c (.head _))

theorem exists_taken (pattern : Regex) (matched : (captures, rest) ∈ pattern.run input) :
    ∃ word, input = word ++ rest := by
  induction pattern generalizing input captures rest with
  | empty =>
      simp only [run, List.mem_singleton, Prod.mk.injEq] at matched
      exact ⟨[], matched.2.symm⟩
  | char class_ =>
      cases input with
      | nil => simp [run] at matched
      | cons c input =>
          simp only [run, List.mem_ite_nil_right, List.mem_singleton, Prod.mk.injEq] at matched
          exact ⟨[c], by rw [matched.2.2]; rfl⟩
  | seq first second firstIH secondIH =>
      simp only [run, List.mem_flatMap, List.mem_map, Prod.exists, Prod.mk.injEq] at matched
      obtain ⟨_, middle, begins, _, _, ends, _, rfl⟩ := matched
      obtain ⟨front, rfl⟩ := firstIH begins
      obtain ⟨back, rfl⟩ := secondIH ends
      exact ⟨front ++ back, by rw [List.append_assoc]⟩
  | alt first second firstIH secondIH =>
      rw [run, List.mem_append] at matched
      exact matched.elim firstIH secondIH
  | opt item ih =>
      rw [run, List.mem_append, List.mem_singleton, Prod.mk.injEq] at matched
      exact matched.elim ih fun skipped => ⟨[], skipped.2.symm⟩
  | plus class_ =>
      simp only [run, List.mem_map, Prod.mk.injEq] at matched
      obtain ⟨_, taken, _, rfl⟩ := matched
      obtain ⟨word, _, _, split⟩ := mem_plusMatches.mp taken
      exact ⟨word, split⟩
  | starPossessive class_ =>
      simp only [run, List.mem_singleton, Prod.mk.injEq] at matched
      exact ⟨input.takeWhile class_, by rw [matched.2, List.takeWhile_append_dropWhile]⟩
  | group name item ih =>
      simp only [run, List.mem_map, Prod.exists, Prod.mk.injEq] at matched
      obtain ⟨_, _, matched, _, rfl⟩ := matched
      exact ih matched
  | dollar =>
      simp only [run, List.mem_ite_nil_right, List.mem_singleton, Prod.mk.injEq] at matched
      exact ⟨[], matched.2.2.symm⟩

theorem takes_empty : empty.Takes word captures rest ↔ word = [] ∧ captures = [] := by
  refine List.mem_singleton.trans ?_
  simp [and_comm]

theorem takes_char : (char class_).Takes word captures rest ↔
    ∃ c, class_ c = true ∧ word = [c] ∧ captures = [] := by
  cases word with
  | nil =>
      cases rest with
      | nil => simp [Takes, run]
      | cons c rest => simp [Takes, run]
  | cons c word =>
      simp only [Takes, run, List.cons_append, List.mem_ite_nil_right, List.mem_singleton, Prod.mk.injEq,
        List.self_eq_append_left, List.cons.injEq]
      constructor
      · rintro ⟨inside, rfl, rfl⟩
        exact ⟨c, inside, ⟨rfl, rfl⟩, rfl⟩
      · rintro ⟨_, inside, ⟨rfl, rfl⟩, rfl⟩
        exact ⟨inside, rfl, rfl⟩

theorem takes_seq : (seq first second).Takes word captures rest ↔
    ∃ front back begins ends, word = front ++ back ∧ captures = begins ++ ends ∧
      first.Takes front begins (back ++ rest) ∧ second.Takes back ends rest := by
  refine List.mem_flatMap.trans ?_
  simp only [List.mem_map, Prod.exists, Prod.mk.injEq]
  constructor
  · rintro ⟨begins, middle, started, ends, _, ended, rfl, rfl⟩
    obtain ⟨back, rfl⟩ := exists_taken second ended
    obtain ⟨front, split⟩ := exists_taken first started
    rw [← List.append_assoc, List.append_left_inj] at split
    subst split
    exact ⟨front, back, begins, ends, rfl, rfl, by rwa [List.append_assoc] at started, ended⟩
  · rintro ⟨front, back, begins, ends, rfl, rfl, started, ended⟩
    exact ⟨begins, back ++ rest, by rwa [List.append_assoc], ends, rest, ended, rfl, rfl⟩

theorem takes_alt : (alt first second).Takes word captures rest ↔
    first.Takes word captures rest ∨ second.Takes word captures rest :=
  List.mem_append

theorem takes_opt : (opt item).Takes word captures rest ↔
    item.Takes word captures rest ∨ word = [] ∧ captures = [] := by
  refine List.mem_append.trans (or_congr Iff.rfl (List.mem_singleton.trans ?_))
  rw [Prod.mk.injEq, List.self_eq_append_left, and_comm]

theorem takes_plus : (plus class_).Takes word captures rest ↔
    word ≠ [] ∧ (∀ c ∈ word, class_ c = true) ∧ captures = [] := by
  refine List.mem_map.trans ?_
  simp only [Prod.mk.injEq]
  constructor
  · rintro ⟨_, taken, rfl, rfl⟩
    obtain ⟨word', nonempty, all, split⟩ := mem_plusMatches.mp taken
    obtain rfl := List.append_cancel_right split
    exact ⟨nonempty, all, rfl⟩
  · rintro ⟨nonempty, all, rfl⟩
    exact ⟨rest, mem_plusMatches.mpr ⟨word, nonempty, all, rfl⟩, rfl, rfl⟩

theorem takes_starPossessive : (starPossessive class_).Takes word captures rest ↔
    (∀ c ∈ word, class_ c = true) ∧ (∀ c, rest.head? = some c → class_ c = false) ∧ captures = [] := by
  refine List.mem_singleton.trans ?_
  rw [Prod.mk.injEq]
  constructor
  · rintro ⟨rfl, stopped⟩
    have parts := List.takeWhile_append_dropWhile (p := class_) (l := word ++ rest)
    rw [← stopped, List.append_left_inj] at parts
    refine ⟨fun c member => ?_, fun c starts => ?_, rfl⟩
    · rw [← parts] at member
      exact List.mem_takeWhile_imp member
    · rw [stopped] at starts
      have := List.head?_dropWhile_not class_ (word ++ rest)
      rw [starts] at this
      simpa using this
  · rintro ⟨all, stops, rfl⟩
    refine ⟨rfl, ?_⟩
    rw [List.dropWhile_append_of_pos all]
    cases rest with
    | nil => rfl
    | cons c rest => rw [List.dropWhile_cons_of_neg (by simp [stops c rfl])]

theorem takes_group : (group name item).Takes word captures rest ↔
    ∃ inner, captures = (name, word) :: inner ∧ item.Takes word inner rest := by
  refine List.mem_map.trans ?_
  simp only [Prod.exists, Prod.mk.injEq, List.length_append]
  constructor
  · rintro ⟨inner, _, matched, rfl, rfl⟩
    exact ⟨inner, by rw [Nat.add_sub_cancel, List.take_left], matched⟩
  · rintro ⟨inner, rfl, matched⟩
    exact ⟨inner, rest, matched, by rw [Nat.add_sub_cancel, List.take_left], rfl⟩

theorem takes_dollar : dollar.Takes word captures rest ↔
    word = [] ∧ captures = [] ∧ (rest = [] ∨ rest = ['\n']) := by
  refine List.mem_ite_nil_right.trans ?_
  simp only [List.mem_singleton, Prod.mk.injEq, List.self_eq_append_left]
  constructor
  · rintro ⟨ends, rfl, rfl⟩
    exact ⟨rfl, rfl, ends⟩
  · rintro ⟨rfl, rfl, ends⟩
    exact ⟨ends, rfl, rfl⟩

theorem takes_text (chars : String) : (text chars).Takes word captures rest ↔
    word = chars.toList ∧ captures = [] := by
  rw [text]
  generalize chars.toList = letters
  induction letters generalizing word captures rest with
  | nil => exact takes_empty
  | cons c letters ih =>
      simp only [List.foldr_cons, takes_seq, takes_char, ih, decide_eq_true_eq]
      constructor
      · rintro ⟨_, _, _, _, rfl, rfl, ⟨_, rfl, rfl, rfl⟩, rfl, rfl⟩
        exact ⟨rfl, rfl⟩
      · rintro ⟨rfl, rfl⟩
        exact ⟨[c], letters, [], [], rfl, rfl, ⟨c, rfl, rfl, rfl⟩, rfl, rfl⟩

theorem firstMatch_takes {pattern : Regex} {subject : List Char}
    (matched : pattern.firstMatch subject = some captures) :
    ∃ word rest, subject = word ++ rest ∧ pattern.Takes word captures rest := by
  obtain ⟨⟨_, rest⟩, first, rfl⟩ := Option.map_eq_some_iff.mp matched
  have member := List.mem_of_head? first
  obtain ⟨word, rfl⟩ := exists_taken pattern member
  exact ⟨word, rest, rfl, member⟩

theorem Takes.exists_firstMatch {pattern : Regex} (takes : pattern.Takes word captures rest) :
    ∃ captures, pattern.firstMatch (word ++ rest) = some captures := by
  rw [firstMatch]
  cases ways : pattern.run (word ++ rest) with
  | nil => simp [Takes, ways] at takes
  | cons way ways => exact ⟨way.1, rfl⟩

end Regex

def Captures.named (captures : Captures) (name : String) : Option (List Char) :=
  (captures.find? fun entry => entry.1 = name).map Prod.snd

end Oil.Data
