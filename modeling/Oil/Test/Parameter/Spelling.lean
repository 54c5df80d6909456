import Oil.Data.Spans
import Oil.Test.Parameter.Model

namespace Oil.Test

open Oil.Data

/-! # How a parameter is spelled

The syntax that the documentation of prototype strings gives for one parameter, less the
blanks around it.  A spelling is a tree whose leaves are words of the right kind. -/

def isWordChar (c : Char) : Bool := isWordStart c || isDigit c

def Blanks : Type := { text : List Char // ∀ c ∈ text, isSpace c = true }

def Gap : Type := { text : List Char // text ≠ [] ∧ ∀ c ∈ text, isSpace c = true }

def Digit : Type := { c : Char // isDigit c = true }

def Digits : Type := { text : List Char // text ≠ [] ∧ ∀ c ∈ text, isDigit c = true }

def Identifier : Type :=
  { text : List Char // ∃ first rest, text = first :: rest ∧ isWordStart first = true ∧
      ∀ c ∈ rest, isWordChar c = true }

/-- The type, with the word `const` before it, after it or nowhere. -/
inductive TypeSpelling where
  | plain (word : Identifier)
  | constBefore (gap : Gap) (word : Identifier)
  | constAfter (word : Identifier) (gap : Gap)

inductive Separator where
  | star (left right : Blanks)
  | gap (blanks : Gap)

inductive ScaleVar where
  | n | m
deriving DecidableEq

inductive LengthSpec where
  | fixed (digits : Digits)
  | var (var : ScaleVar)
  | varPlus (var : ScaleVar) (digits : Digits)

inductive Direction where
  | i | s | d
deriving DecidableEq

inductive Lengths where
  | none
  | one (len1 : LengthSpec)
  | two (len1 len2 : LengthSpec)

inductive NameSpelling where
  | scale (var : ScaleVar)
  | stride (dir : Direction) (index : Option Digit)
  | array (dir : Direction) (index : Option Digit) (lengths : Lengths)

structure Spelling where
  type : TypeSpelling
  separator : Separator
  name : NameSpelling

def constWord : List Char := "const".toList

def TypeSpelling.text : TypeSpelling → List Char
  | plain word => word.1
  | constBefore gap word => constWord ++ (gap.1 ++ word.1)
  | constAfter word gap => word.1 ++ (gap.1 ++ constWord)

def TypeSpelling.word : TypeSpelling → Identifier
  | plain word | constBefore _ word | constAfter word _ => word

def Separator.text : Separator → List Char
  | star left right => left.1 ++ '*' :: right.1
  | gap blanks => blanks.1

def Separator.starred : Separator → Bool
  | star _ _ => true
  | gap _ => false

def ScaleVar.letter : ScaleVar → Char
  | n => 'n'
  | m => 'm'

def LengthSpec.text : LengthSpec → List Char
  | fixed digits => digits.1
  | var v => [v.letter]
  | varPlus v digits => v.letter :: 'p' :: digits.1

def Direction.letter : Direction → Char
  | i => 'i'
  | s => 's'
  | d => 'd'

def indexText : Option Digit → List Char
  | none => []
  | some digit => [digit.1]

def Lengths.text : Lengths → List Char
  | none => []
  | one len1 => '_' :: len1.text
  | two len1 len2 => '_' :: (len1.text ++ 'x' :: len2.text)

def NameSpelling.text : NameSpelling → List Char
  | scale v => [v.letter]
  | stride dir index => dir.letter :: 's' :: indexText index
  | array dir index lengths => dir.letter :: (indexText index ++ lengths.text)

def Spelling.text (s : Spelling) : List Char := s.type.text ++ (s.separator.text ++ s.name.text)

/-- What a spelling says, less the blanks and the word `const`. -/
structure Reading where
  typeName : List Char
  starred : Bool
  name : NameSpelling

def Spelling.reading (s : Spelling) : Reading := ⟨s.type.word.1, s.separator.starred, s.name⟩

/-! ## Kinds of characters -/

theorem isDigit_iff {c : Char} : isDigit c = true ↔ '0' ≤ c ∧ c ≤ '9' := by
  simp [isDigit]

theorem isWordChar_of_isDigit {c : Char} (digit : isDigit c = true) : isWordChar c = true := by
  simp [isWordChar, digit]

theorem not_isWordChar_of_isSpace {c : Char} (blank : isSpace c = true) : isWordChar c = false := by
  simp only [isSpace, Bool.or_eq_true, decide_eq_true_eq] at blank
  rcases blank with (((rfl | rfl) | rfl) | rfl) | rfl <;> decide

theorem not_isSpace_of_isWordChar {c : Char} (word : isWordChar c = true) : isSpace c = false := by
  cases blank : isSpace c with
  | false => rfl
  | true => simp [not_isWordChar_of_isSpace blank] at word

theorem ne_of_isDigit {c other : Char} (digit : isDigit c = true) (not : isDigit other = false) : c ≠ other := by
  rintro rfl
  simp [digit] at not

theorem constWord_isWord : ∀ c ∈ constWord, isWordChar c = true := List.all_eq_true.mp (by decide)

namespace Identifier

theorem isWord (word : Identifier) : ∀ c ∈ word.1, isWordChar c = true := by
  obtain ⟨_, first, rest, rfl, starts, all⟩ := word
  intro c member
  rcases List.mem_cons.mp member with rfl | later
  · simp [isWordChar, starts]
  · exact all c later

theorem ne_nil (word : Identifier) : word.1 ≠ [] := by
  obtain ⟨_, first, rest, rfl, _⟩ := word
  simp

end Identifier

/-! ## Reading a spelling back -/

theorem ScaleVar.isWord (v : ScaleVar) : isWordChar v.letter = true := by cases v <;> decide

theorem Direction.isWord (dir : Direction) : isWordChar dir.letter = true := by cases dir <;> decide

theorem LengthSpec.isWord (len : LengthSpec) : ∀ c ∈ len.text, isWordChar c = true ∧ c ≠ 'x' := by
  have digit (digits : Digits) : ∀ c ∈ digits.1, isWordChar c = true ∧ c ≠ 'x' := fun c member =>
    ⟨isWordChar_of_isDigit (digits.2.2 c member), ne_of_isDigit (digits.2.2 c member) (by decide)⟩
  have letter (v : ScaleVar) : isWordChar v.letter = true ∧ v.letter ≠ 'x' :=
    ⟨v.isWord, by cases v <;> decide⟩
  cases len with
  | fixed digits => exact digit digits
  | var v => simpa only [text, List.mem_singleton, forall_eq] using letter v
  | varPlus v digits =>
      simp only [text, List.forall_mem_cons]
      exact ⟨letter v, by decide, digit digits⟩

theorem indexText_isDigit (index : Option Digit) : ∀ c ∈ indexText index, isDigit c = true := by
  intro c member
  cases index with
  | none => contradiction
  | some digit => exact List.mem_singleton.mp member ▸ digit.2

theorem Lengths.isWord (lengths : Lengths) : ∀ c ∈ lengths.text, isWordChar c = true := by
  cases lengths with
  | none => simp [text]
  | one len1 =>
      simp only [text, List.forall_mem_cons]
      exact ⟨by decide, fun c member => (len1.isWord c member).1⟩
  | two len1 len2 =>
      simp only [text, List.forall_mem_cons, List.forall_mem_append]
      exact ⟨by decide, fun c member => (len1.isWord c member).1, by decide,
        fun c member => (len2.isWord c member).1⟩

theorem NameSpelling.isWord (name : NameSpelling) : ∀ c ∈ name.text, isWordChar c = true := by
  have index (i : Option Digit) : ∀ c ∈ indexText i, isWordChar c = true :=
    fun c member => isWordChar_of_isDigit (indexText_isDigit i c member)
  cases name with
  | scale v => simpa only [text, List.mem_singleton, forall_eq] using v.isWord
  | stride dir i =>
      simp only [text, List.forall_mem_cons]
      exact ⟨dir.isWord, by decide, index i⟩
  | array dir i lengths =>
      simp only [text, List.forall_mem_cons, List.forall_mem_append]
      exact ⟨dir.isWord, index i, lengths.isWord⟩

theorem NameSpelling.text_ne_nil (name : NameSpelling) : name.text ≠ [] := by
  cases name <;> simp [text]

theorem ScaleVar.letter_inj {v w : ScaleVar} (same : v.letter = w.letter) : v = w := by
  cases v <;> cases w <;> first | rfl | exact absurd same (by decide)

theorem Direction.letter_inj {a b : Direction} (same : a.letter = b.letter) : a = b := by
  cases a <;> cases b <;> first | rfl | exact absurd same (by decide)

theorem indexText_inj {i j : Option Digit} (same : indexText i = indexText j) : i = j := by
  cases i with
  | none =>
      cases j with
      | none => rfl
      | some b => simp [indexText] at same
  | some a =>
      cases j with
      | none => simp [indexText] at same
      | some b => exact congrArg some (Subtype.ext (List.cons.inj same).1)

theorem Digits.exists_cons (digits : Digits) : ∃ c rest, digits.1 = c :: rest ∧ isDigit c = true := by
  obtain ⟨text, nonempty, all⟩ := digits
  cases text with
  | nil => contradiction
  | cons c rest => exact ⟨c, rest, rfl, all c (.head _)⟩

theorem Digits.ne_letter {digits : Digits} {v : ScaleVar} {rest : List Char} : digits.1 ≠ v.letter :: rest := by
  obtain ⟨c, _, split, digit⟩ := digits.exists_cons
  rw [split]
  intro same
  exact ne_of_isDigit digit (by cases v <;> decide) (List.cons.inj same).1

theorem LengthSpec.text_inj {a b : LengthSpec} (same : a.text = b.text) : a = b := by
  cases a with
  | fixed digits =>
      cases b with
      | fixed digits' => exact congrArg fixed (Subtype.ext same)
      | var v => exact absurd same Digits.ne_letter
      | varPlus v _ => exact absurd same Digits.ne_letter
  | var v =>
      cases b with
      | fixed digits => exact absurd same.symm Digits.ne_letter
      | var w => rw [ScaleVar.letter_inj (List.cons.inj same).1]
      | varPlus w _ => simp [text] at same
  | varPlus v digits =>
      cases b with
      | fixed digits => exact absurd same.symm Digits.ne_letter
      | var w => simp [text] at same
      | varPlus w digits' =>
          obtain ⟨letters, rest⟩ := List.cons.inj same
          rw [ScaleVar.letter_inj letters, Subtype.ext (List.cons.inj rest).2]

theorem Lengths.text_inj {a b : Lengths} (same : a.text = b.text) : a = b := by
  have inside (len : LengthSpec) : ∀ c ∈ len.text, decide (c ≠ 'x') = true := fun c member => by
    simpa using (len.isWord c member).2
  have stops (rest : List Char) : ∀ c, ('x' :: rest).head? = some c → decide (c ≠ 'x') = false := by
    rintro c ⟨⟩
    decide
  have oneTwo {l l1 l2 : LengthSpec} : ('_' :: l.text) ≠ '_' :: (l1.text ++ 'x' :: l2.text) := by
    intro same
    have member : 'x' ∈ l.text := by
      rw [(List.cons.inj same).2]
      simp
    exact (l.isWord 'x' member).2 rfl
  cases a with
  | none => cases b <;> first | rfl | simp [text] at same
  | one len1 =>
      cases b with
      | none => simp [text] at same
      | one len1' => rw [LengthSpec.text_inj (List.cons.inj same).2]
      | two len1' len2' => exact absurd same oneTwo
  | two len1 len2 =>
      cases b with
      | none => simp [text] at same
      | one len1' => exact absurd same.symm oneTwo
      | two len1' len2' =>
          obtain ⟨first, rest⟩ := front_span_unique (List.cons.inj same).2 (inside len1) (stops _)
            (inside len1') (stops _)
          rw [LengthSpec.text_inj first, LengthSpec.text_inj (List.cons.inj rest).2]

theorem NameSpelling.text_inj {a b : NameSpelling} (same : a.text = b.text) : a = b := by
  have letters {v : ScaleVar} {dir : Direction} : v.letter ≠ dir.letter := by cases v <;> cases dir <;> decide
  have stops (lengths : Lengths) : ∀ c, lengths.text.head? = some c → isDigit c = false := by
    intro c starts
    cases lengths with
    | none => simp [Lengths.text] at starts
    | one _ =>
        cases starts
        decide
    | two _ _ =>
        cases starts
        decide
  have strideArray {dir dir' : Direction} {i i' : Option Digit} {lengths : Lengths} :
      dir.letter :: 's' :: indexText i ≠ dir'.letter :: (indexText i' ++ lengths.text) := by
    intro same
    obtain ⟨_, rest⟩ := List.cons.inj same
    have starts : (indexText i' ++ lengths.text).head? = some 's' := by rw [← rest]; rfl
    cases i' with
    | none => cases lengths <;> simp [indexText, Lengths.text] at starts
    | some digit =>
        have digit_s : digit.1 = 's' := by simpa [indexText] using starts
        exact ne_of_isDigit digit.2 (by decide) digit_s
  cases a with
  | scale v =>
      cases b with
      | scale w => rw [ScaleVar.letter_inj (List.cons.inj same).1]
      | stride dir _ => exact absurd (List.cons.inj same).1 letters
      | array dir _ _ => exact absurd (List.cons.inj same).1 letters
  | stride dir i =>
      cases b with
      | scale w => exact absurd (List.cons.inj same).1.symm letters
      | stride dir' i' =>
          obtain ⟨dirs, rest⟩ := List.cons.inj same
          rw [Direction.letter_inj dirs, indexText_inj (List.cons.inj rest).2]
      | array dir' i' lengths => exact absurd same strideArray
  | array dir i lengths =>
      cases b with
      | scale w => exact absurd (List.cons.inj same).1.symm letters
      | stride dir' i' => exact absurd same.symm strideArray
      | array dir' i' lengths' =>
          obtain ⟨dirs, rest⟩ := List.cons.inj same
          obtain ⟨indices, rest⟩ := front_span_unique rest (indexText_isDigit i) (stops _)
            (indexText_isDigit i') (stops _)
          rw [Direction.letter_inj dirs, indexText_inj indices, Lengths.text_inj rest]

theorem Gap.head_blank (gap : Gap) {rest : List Char} :
    ∀ c, (gap.1 ++ rest).head? = some c → isWordChar c = false := by
  obtain ⟨text, nonempty, all⟩ := gap
  cases text with
  | nil => contradiction
  | cons blank text =>
      rintro c ⟨⟩
      exact not_isWordChar_of_isSpace (all _ (.head _))

theorem head_not_isSpace {word : List Char} (all : ∀ c ∈ word, isWordChar c = true) :
    ∀ c, word.head? = some c → isSpace c = false :=
  fun c starts => not_isSpace_of_isWordChar (all c (List.mem_of_head? starts))

/-- Two words with a gap between them are told apart by the gap. -/
theorem two_words_inj {first second first' second' : List Char} {gap gap' : Gap}
    (same : first ++ (gap.1 ++ second) = first' ++ (gap'.1 ++ second'))
    (word : ∀ c ∈ first, isWordChar c = true) (word' : ∀ c ∈ first', isWordChar c = true)
    (back : ∀ c ∈ second, isWordChar c = true) (back' : ∀ c ∈ second', isWordChar c = true) :
    first = first' ∧ second = second' := by
  obtain ⟨firsts, rest⟩ := front_span_unique same word gap.head_blank word' gap'.head_blank
  obtain ⟨_, seconds⟩ := front_span_unique rest gap.2.2 (head_not_isSpace back) gap'.2.2 (head_not_isSpace back')
  exact ⟨firsts, seconds⟩

theorem one_word_ne_two {word first second : List Char} {gap : Gap} (all : ∀ c ∈ word, isWordChar c = true) :
    word ≠ first ++ (gap.1 ++ second) := by
  rintro rfl
  obtain ⟨text, nonempty, blanks⟩ := gap
  obtain ⟨c, member⟩ := List.exists_mem_of_ne_nil text nonempty
  have inside := all c (by simp [member])
  simp [not_isWordChar_of_isSpace (blanks c member)] at inside

theorem TypeSpelling.word_of_text {a b : TypeSpelling} (same : a.text = b.text) : a.word.1 = b.word.1 := by
  cases a with
  | plain word =>
      cases b with
      | plain word' => exact same
      | constBefore gap word' => exact absurd same (one_word_ne_two word.isWord)
      | constAfter word' gap => exact absurd same (one_word_ne_two word.isWord)
  | constBefore gap word =>
      cases b with
      | plain word' => exact absurd same.symm (one_word_ne_two word'.isWord)
      | constBefore gap' word' =>
          exact (two_words_inj same constWord_isWord constWord_isWord word.isWord word'.isWord).2
      | constAfter word' gap' =>
          -- `const const`: either way the type is named `const`
          obtain ⟨left, right⟩ := two_words_inj same constWord_isWord word'.isWord word.isWord constWord_isWord
          exact right.trans left
  | constAfter word gap =>
      cases b with
      | plain word' => exact absurd same.symm (one_word_ne_two word'.isWord)
      | constBefore gap' word' =>
          obtain ⟨left, right⟩ := two_words_inj same word.isWord constWord_isWord constWord_isWord word'.isWord
          exact left.trans right
      | constAfter word' gap' =>
          exact (two_words_inj same word.isWord word'.isWord constWord_isWord constWord_isWord).1

theorem last_isWordChar (front : List Char) {word : List Char} (all : ∀ c ∈ word, isWordChar c = true)
    (nonempty : word ≠ []) : ∀ c, (front ++ word).getLast? = some c → isWordChar c = true := by
  intro c last
  rw [List.getLast?_append_of_ne_nil _ nonempty] at last
  exact all c (List.mem_of_getLast? last)

theorem TypeSpelling.last_isWordChar (type : TypeSpelling) :
    ∀ c, type.text.getLast? = some c → isWordChar c = true := by
  cases type with
  | plain word => exact Test.last_isWordChar [] word.isWord word.ne_nil
  | constBefore gap word =>
      rw [text, ← List.append_assoc]
      exact Test.last_isWordChar _ word.isWord word.ne_nil
  | constAfter word gap =>
      rw [text, ← List.append_assoc]
      exact Test.last_isWordChar _ constWord_isWord (by decide)

theorem Separator.not_isWordChar (separator : Separator) : ∀ c ∈ separator.text, isWordChar c = false := by
  cases separator with
  | star left right =>
      simp only [text, List.forall_mem_append, List.forall_mem_cons]
      exact ⟨fun c member => not_isWordChar_of_isSpace (left.2 c member), by decide,
        fun c member => not_isWordChar_of_isSpace (right.2 c member)⟩
  | gap blanks => exact fun c member => not_isWordChar_of_isSpace (blanks.2.2 c member)

theorem Separator.text_ne_nil (separator : Separator) : separator.text ≠ [] := by
  cases separator with
  | star left right => simp [text]
  | gap blanks => exact blanks.2.1

theorem Separator.starred_iff (separator : Separator) : separator.starred = true ↔ '*' ∈ separator.text := by
  cases separator with
  | star left right => simp [starred, text]
  | gap blanks =>
      simp only [starred, text, Bool.false_eq_true, false_iff]
      exact fun member => absurd (blanks.2.2 '*' member) (by decide)

/-- A parameter reads in one way only. -/
theorem Spelling.reading_of_text {s t : Spelling} (same : s.text = t.text) : s.reading = t.reading := by
  have gapLast (u : Spelling) : ∀ c, (u.type.text ++ u.separator.text).getLast? = some c →
      isWordChar c = false := by
    intro c last
    rw [List.getLast?_append_of_ne_nil _ u.separator.text_ne_nil] at last
    exact u.separator.not_isWordChar c (List.mem_of_getLast? last)
  simp only [text, ← List.append_assoc] at same
  obtain ⟨fronts, names⟩ := back_span_unique same s.name.isWord (gapLast s) t.name.isWord (gapLast t)
  obtain ⟨types, separators⟩ := back_span_unique (p := fun c => !isWordChar c) fronts
    (fun c member => by simp [s.separator.not_isWordChar c member])
    (fun c last => by simp [s.type.last_isWordChar c last])
    (fun c member => by simp [t.separator.not_isWordChar c member])
    (fun c last => by simp [t.type.last_isWordChar c last])
  have starred : s.separator.starred = t.separator.starred := by
    rw [Bool.eq_iff_iff, Separator.starred_iff, Separator.starred_iff, separators]
  simp only [reading, TypeSpelling.word_of_text types, starred, NameSpelling.text_inj names]

end Oil.Test
