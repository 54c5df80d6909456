import Oil.Test.Parameter.Spelling

namespace Oil.Test

open Oil.Data Oil.Data.Regex

/-! # What the parameter pattern matches

The pattern matches exactly the spellings, with blanks around them, and its groups capture
the parts of the spelling. -/

def TypeSpelling.captures (type : TypeSpelling) : Captures := [("type", type.word.1)]

def Separator.captures : Separator → Captures
  | star _ _ => [("star", ['*'])]
  | gap _ => []

def Lengths.captures : Lengths → Captures
  | none => []
  | one len1 => [("len1", len1.text)]
  | two len1 len2 => [("len1", len1.text), ("len2", len2.text)]

def NameSpelling.captures : NameSpelling → Captures
  | scale v => [("nm", [v.letter])]
  | stride dir index =>
      [("stride", (stride dir index).text), ("arg_class", [dir.letter]), ("index", indexText index)]
  | array dir index lengths =>
      ("array", (array dir index lengths).text) :: ("arg_class", [dir.letter]) :: ("index", indexText index) ::
        lengths.captures

def Spelling.captures (s : Spelling) : Captures :=
  s.type.captures ++ (s.separator.captures ++ s.name.captures)

variable {word rest : List Char} {captures : Captures}

theorem takes_sep : sep.Takes word captures rest ↔ ∃ gap : Gap, word = gap.1 ∧ captures = [] := by
  rw [sep, takes_plus]
  constructor
  · rintro ⟨nonempty, blank, rfl⟩
    exact ⟨⟨word, nonempty, blank⟩, rfl, rfl⟩
  · rintro ⟨gap, rfl, rfl⟩
    exact ⟨gap.2.1, gap.2.2, rfl⟩

theorem takes_pad : pad.Takes word captures rest ↔
    ∃ blanks : Blanks, word = blanks.1 ∧ captures = [] ∧
      ∀ c, rest.head? = some c → isSpace c = false := by
  rw [pad, takes_starPossessive]
  constructor
  · rintro ⟨blank, stops, rfl⟩
    exact ⟨⟨word, blank⟩, rfl, rfl, stops⟩
  · rintro ⟨blanks, rfl, rfl, stops⟩
    exact ⟨blanks.2, stops, rfl⟩

theorem takes_cWord : cWord.Takes word captures rest ↔
    ∃ name : Identifier, word = name.1 ∧ captures = [] ∧
      ∀ c, rest.head? = some c → isWordChar c = false := by
  rw [cWord, takes_seq]
  constructor
  · rintro ⟨_, back, _, _, rfl, rfl, first, later⟩
    obtain ⟨c, starts, rfl, rfl⟩ := takes_char.mp first
    obtain ⟨all, stops, rfl⟩ := takes_starPossessive.mp later
    exact ⟨⟨c :: back, c, back, rfl, starts, all⟩, rfl, rfl, stops⟩
  · rintro ⟨⟨_, c, back, rfl, starts, all⟩, rfl, rfl, stops⟩
    exact ⟨[c], back, [], [], rfl, rfl, takes_char.mpr ⟨c, starts, rfl, rfl⟩,
      takes_starPossessive.mpr ⟨all, stops, rfl⟩⟩

theorem typePattern_sound (takes : typePattern.Takes word captures rest) :
    ∃ type : TypeSpelling, word = type.text ∧ captures = type.captures := by
  rw [typePattern, takes_alt, takes_alt, takes_group, takes_seq, takes_seq] at takes
  rcases takes with ⟨_, rfl, plain⟩ | ⟨_, back, _, _, rfl, rfl, before, named⟩ |
    ⟨_, back, _, _, rfl, rfl, named, after⟩
  · obtain ⟨name, rfl, rfl, _⟩ := takes_cWord.mp plain
    exact ⟨.plain name, rfl, rfl⟩
  · obtain ⟨_, _, _, _, rfl, rfl, const, blank⟩ := takes_seq.mp before
    obtain ⟨rfl, rfl⟩ := (takes_text _).mp const
    obtain ⟨gap, rfl, rfl⟩ := takes_sep.mp blank
    obtain ⟨_, rfl, inner⟩ := takes_group.mp named
    obtain ⟨name, rfl, rfl, _⟩ := takes_cWord.mp inner
    exact ⟨.constBefore gap name, List.append_assoc _ _ _, rfl⟩
  · obtain ⟨_, rfl, inner⟩ := takes_group.mp named
    obtain ⟨name, rfl, rfl, _⟩ := takes_cWord.mp inner
    obtain ⟨_, _, _, _, rfl, rfl, blank, const⟩ := takes_seq.mp after
    obtain ⟨gap, rfl, rfl⟩ := takes_sep.mp blank
    obtain ⟨rfl, rfl⟩ := (takes_text _).mp const
    exact ⟨.constAfter name gap, rfl, rfl⟩

theorem typePattern_complete (type : TypeSpelling) (stops : ∀ c, rest.head? = some c → isWordChar c = false) :
    typePattern.Takes type.text type.captures rest := by
  have named (name : Identifier) {rest : List Char}
      (stops : ∀ c, rest.head? = some c → isWordChar c = false) :
      (group "type" cWord).Takes name.1 [("type", name.1)] rest :=
    takes_group.mpr ⟨[], rfl, takes_cWord.mpr ⟨name, rfl, rfl, stops⟩⟩
  rw [typePattern, takes_alt, takes_alt]
  cases type with
  | plain name => exact .inl (named name stops)
  | constBefore gap name =>
      refine .inr (.inl (takes_seq.mpr ⟨constWord ++ gap.1, name.1, [], _,
        (List.append_assoc _ _ _).symm, rfl, ?_, named name stops⟩))
      exact takes_seq.mpr ⟨_, _, [], [], rfl, rfl, (takes_text _).mpr ⟨rfl, rfl⟩,
        takes_sep.mpr ⟨gap, rfl, rfl⟩⟩
  | constAfter name gap =>
      refine .inr (.inr (takes_seq.mpr ⟨name.1, gap.1 ++ constWord, _, [], rfl, rfl, named name ?_, ?_⟩))
      · rw [List.append_assoc]
        exact gap.head_blank
      · exact takes_seq.mpr ⟨_, _, [], [], rfl, rfl, takes_sep.mpr ⟨gap, rfl, rfl⟩,
          (takes_text _).mpr ⟨rfl, rfl⟩⟩

theorem starSep_sound (takes : starSep.Takes word captures rest) :
    ∃ separator : Separator, word = separator.text ∧ captures = separator.captures := by
  rw [starSep, takes_alt, takes_seq] at takes
  rcases takes with ⟨_, _, _, _, rfl, rfl, padLeft, starred⟩ | blank
  · obtain ⟨left, rfl, rfl, _⟩ := takes_pad.mp padLeft
    obtain ⟨_, _, _, _, rfl, rfl, star, padRight⟩ := takes_seq.mp starred
    obtain ⟨_, rfl, inner⟩ := takes_group.mp star
    obtain ⟨c, isStar, rfl, rfl⟩ := takes_char.mp inner
    obtain rfl := of_decide_eq_true isStar
    obtain ⟨right, rfl, rfl, _⟩ := takes_pad.mp padRight
    exact ⟨.star left right, rfl, rfl⟩
  · obtain ⟨gap, rfl, rfl⟩ := takes_sep.mp blank
    exact ⟨.gap gap, rfl, rfl⟩

theorem starSep_complete (separator : Separator) (stops : ∀ c, rest.head? = some c → isSpace c = false) :
    starSep.Takes separator.text separator.captures rest := by
  rw [starSep, takes_alt, takes_seq]
  cases separator with
  | star left right =>
      refine .inl ⟨left.1, '*' :: right.1, [], _, rfl, rfl, takes_pad.mpr ⟨left, rfl, rfl, ?_⟩, ?_⟩
      · rintro c ⟨⟩
        decide
      · exact takes_seq.mpr ⟨['*'], right.1, _, [], rfl, rfl,
          takes_group.mpr ⟨[], rfl, takes_char.mpr ⟨'*', by decide, rfl, rfl⟩⟩,
          takes_pad.mpr ⟨right, rfl, rfl, stops⟩⟩
  | gap blanks => exact .inr (takes_sep.mpr ⟨blanks, rfl, rfl⟩)

theorem takes_scaleVar : (char fun c => c = 'n' || c = 'm').Takes word captures rest ↔
    ∃ v : ScaleVar, word = [v.letter] ∧ captures = [] := by
  rw [takes_char]
  constructor
  · rintro ⟨c, either, rfl, rfl⟩
    simp only [Bool.or_eq_true, decide_eq_true_eq] at either
    rcases either with rfl | rfl
    · exact ⟨.n, rfl, rfl⟩
    · exact ⟨.m, rfl, rfl⟩
  · rintro ⟨v, rfl, rfl⟩
    exact ⟨v.letter, by cases v <;> rfl, rfl, rfl⟩

theorem takes_argClass : argClassPattern.Takes word captures rest ↔
    ∃ dir : Direction, word = [dir.letter] ∧ captures = [("arg_class", [dir.letter])] := by
  rw [argClassPattern, takes_group]
  constructor
  · rintro ⟨_, rfl, inner⟩
    obtain ⟨c, either, rfl, rfl⟩ := takes_char.mp inner
    simp only [Bool.or_eq_true, decide_eq_true_eq] at either
    rcases either with (rfl | rfl) | rfl
    · exact ⟨.i, rfl, rfl⟩
    · exact ⟨.s, rfl, rfl⟩
    · exact ⟨.d, rfl, rfl⟩
  · rintro ⟨dir, rfl, rfl⟩
    exact ⟨[], rfl, takes_char.mpr ⟨dir.letter, by cases dir <;> rfl, rfl, rfl⟩⟩

theorem takes_index : indexPattern.Takes word captures rest ↔
    ∃ index, word = indexText index ∧ captures = [("index", indexText index)] := by
  rw [indexPattern, takes_group]
  constructor
  · rintro ⟨_, rfl, inner⟩
    rcases takes_opt.mp inner with taken | ⟨rfl, rfl⟩
    · obtain ⟨c, digit, rfl, rfl⟩ := takes_char.mp taken
      exact ⟨some ⟨c, digit⟩, rfl, rfl⟩
    · exact ⟨none, rfl, rfl⟩
  · rintro ⟨index, rfl, rfl⟩
    refine ⟨[], rfl, takes_opt.mpr ?_⟩
    cases index with
    | none => exact .inr ⟨rfl, rfl⟩
    | some digit => exact .inl (takes_char.mpr ⟨digit.1, digit.2, rfl, rfl⟩)

theorem takes_digits : (plus isDigit).Takes word captures rest ↔
    ∃ digits : Digits, word = digits.1 ∧ captures = [] := by
  rw [takes_plus]
  constructor
  · rintro ⟨nonempty, all, rfl⟩
    exact ⟨⟨word, nonempty, all⟩, rfl, rfl⟩
  · rintro ⟨digits, rfl, rfl⟩
    exact ⟨digits.2.1, digits.2.2, rfl⟩

theorem takes_letter (letter : Char) : (char (· = letter)).Takes word captures rest ↔
    word = [letter] ∧ captures = [] := by
  simp [takes_char]

theorem takes_letter_seq (letter : Char) {item : Regex} :
    (seq (char (· = letter)) item).Takes word captures rest ↔
      ∃ back, word = letter :: back ∧ item.Takes back captures rest := by
  rw [takes_seq]
  constructor
  · intro ⟨_, back, _, _, split, parts, first, later⟩
    obtain ⟨rfl, rfl⟩ := (takes_letter letter).mp first
    exact ⟨back, split, parts ▸ later⟩
  · intro ⟨back, split, later⟩
    exact ⟨[letter], back, [], captures, split, rfl, (takes_letter letter).mpr ⟨rfl, rfl⟩, later⟩

theorem takes_lenSpec : lenSpec.Takes word captures rest ↔
    ∃ len : LengthSpec, word = len.text ∧ captures = [] := by
  rw [lenSpec, takes_alt, takes_digits, takes_seq]
  constructor
  · rintro (⟨digits, rfl, rfl⟩ | ⟨_, _, _, _, rfl, rfl, letter, more⟩)
    · exact ⟨.fixed digits, rfl, rfl⟩
    · obtain ⟨v, rfl, rfl⟩ := takes_scaleVar.mp letter
      rcases takes_opt.mp more with plus | ⟨rfl, rfl⟩
      · obtain ⟨_, rfl, number⟩ := (takes_letter_seq 'p').mp plus
        obtain ⟨digits, rfl, rfl⟩ := takes_digits.mp number
        exact ⟨.varPlus v digits, rfl, rfl⟩
      · exact ⟨.var v, rfl, rfl⟩
  · rintro ⟨len, rfl, rfl⟩
    cases len with
    | fixed digits => exact .inl ⟨digits, rfl, rfl⟩
    | var v =>
        exact .inr ⟨_, [], [], [], rfl, rfl, takes_scaleVar.mpr ⟨v, rfl, rfl⟩, takes_opt.mpr (.inr ⟨rfl, rfl⟩)⟩
    | varPlus v digits =>
        refine .inr ⟨[v.letter], 'p' :: digits.1, [], [], rfl, rfl, takes_scaleVar.mpr ⟨v, rfl, rfl⟩,
          takes_opt.mpr (.inl ?_)⟩
        exact (takes_letter_seq 'p').mpr ⟨digits.1, rfl, takes_digits.mpr ⟨digits, rfl, rfl⟩⟩

theorem takes_namedLen (name : String) : (group name lenSpec).Takes word captures rest ↔
    ∃ len : LengthSpec, word = len.text ∧ captures = [(name, len.text)] := by
  rw [takes_group]
  constructor
  · rintro ⟨_, rfl, inner⟩
    obtain ⟨len, rfl, rfl⟩ := takes_lenSpec.mp inner
    exact ⟨len, rfl, rfl⟩
  · rintro ⟨len, rfl, rfl⟩
    exact ⟨[], rfl, takes_lenSpec.mpr ⟨len, rfl, rfl⟩⟩

theorem takes_argNm : argNm.Takes word captures rest ↔
    ∃ v : ScaleVar, word = (NameSpelling.scale v).text ∧ captures = (NameSpelling.scale v).captures := by
  rw [argNm, takes_group]
  constructor
  · rintro ⟨_, rfl, inner⟩
    obtain ⟨v, rfl, rfl⟩ := takes_scaleVar.mp inner
    exact ⟨v, rfl, rfl⟩
  · rintro ⟨v, rfl, rfl⟩
    exact ⟨[], rfl, takes_scaleVar.mpr ⟨v, rfl, rfl⟩⟩

theorem takes_argStride : argStride.Takes word captures rest ↔
    ∃ dir index, word = (NameSpelling.stride dir index).text ∧
      captures = (NameSpelling.stride dir index).captures := by
  rw [argStride, takes_group]
  constructor
  · rintro ⟨_, rfl, inner⟩
    obtain ⟨_, _, _, _, rfl, rfl, argClass, more⟩ := takes_seq.mp inner
    obtain ⟨dir, rfl, rfl⟩ := takes_argClass.mp argClass
    obtain ⟨_, rfl, last⟩ := (takes_letter_seq 's').mp more
    obtain ⟨index, rfl, rfl⟩ := takes_index.mp last
    exact ⟨dir, index, rfl, rfl⟩
  · rintro ⟨dir, index, rfl, rfl⟩
    refine ⟨_, rfl, takes_seq.mpr ⟨[dir.letter], 's' :: indexText index, _, _, rfl, rfl,
      takes_argClass.mpr ⟨dir, rfl, rfl⟩, ?_⟩⟩
    exact (takes_letter_seq 's').mpr ⟨indexText index, rfl, takes_index.mpr ⟨index, rfl, rfl⟩⟩

/-- The length specifications behind the index of an array name. -/
def lengthsPattern : Regex :=
  .opt (.seq (.char (· = '_')) (.seq (.group "len1" lenSpec)
    (.opt (.seq (.char (· = 'x')) (.group "len2" lenSpec)))))

theorem takes_lengths : lengthsPattern.Takes word captures rest ↔
    ∃ lengths : Lengths, word = lengths.text ∧ captures = lengths.captures := by
  rw [lengthsPattern, takes_opt]
  constructor
  · rintro (specified | ⟨rfl, rfl⟩)
    · obtain ⟨_, rfl, specs⟩ := (takes_letter_seq '_').mp specified
      obtain ⟨_, _, _, _, rfl, rfl, first, more⟩ := takes_seq.mp specs
      obtain ⟨len1, rfl, rfl⟩ := (takes_namedLen "len1").mp first
      rcases takes_opt.mp more with second | ⟨rfl, rfl⟩
      · obtain ⟨_, rfl, spec⟩ := (takes_letter_seq 'x').mp second
        obtain ⟨len2, rfl, rfl⟩ := (takes_namedLen "len2").mp spec
        exact ⟨.two len1 len2, rfl, rfl⟩
      · exact ⟨.one len1, by rw [List.append_nil]; rfl, rfl⟩
    · exact ⟨.none, rfl, rfl⟩
  · rintro ⟨lengths, rfl, rfl⟩
    cases lengths with
    | none => exact .inr ⟨rfl, rfl⟩
    | one len1 =>
        refine .inl ((takes_letter_seq '_').mpr ⟨len1.text, rfl, ?_⟩)
        exact takes_seq.mpr ⟨len1.text, [], _, [], by rw [List.append_nil], rfl,
          (takes_namedLen "len1").mpr ⟨len1, rfl, rfl⟩, takes_opt.mpr (.inr ⟨rfl, rfl⟩)⟩
    | two len1 len2 =>
        refine .inl ((takes_letter_seq '_').mpr ⟨len1.text ++ 'x' :: len2.text, rfl, ?_⟩)
        refine takes_seq.mpr ⟨len1.text, 'x' :: len2.text, _, _, rfl, rfl,
          (takes_namedLen "len1").mpr ⟨len1, rfl, rfl⟩, takes_opt.mpr (.inl ?_)⟩
        exact (takes_letter_seq 'x').mpr ⟨len2.text, rfl, (takes_namedLen "len2").mpr ⟨len2, rfl, rfl⟩⟩

theorem takes_argVector : argVector.Takes word captures rest ↔
    ∃ dir index lengths, word = (NameSpelling.array dir index lengths).text ∧
      captures = (NameSpelling.array dir index lengths).captures := by
  rw [argVector, takes_group]
  constructor
  · rintro ⟨_, rfl, inner⟩
    obtain ⟨_, _, _, _, rfl, rfl, argClass, more⟩ := takes_seq.mp inner
    obtain ⟨dir, rfl, rfl⟩ := takes_argClass.mp argClass
    obtain ⟨_, _, _, _, rfl, rfl, digit, last⟩ := takes_seq.mp more
    obtain ⟨index, rfl, rfl⟩ := takes_index.mp digit
    obtain ⟨lengths, rfl, rfl⟩ := takes_lengths.mp last
    exact ⟨dir, index, lengths, rfl, rfl⟩
  · rintro ⟨dir, index, lengths, rfl, rfl⟩
    refine ⟨_, rfl, takes_seq.mpr ⟨[dir.letter], indexText index ++ lengths.text, _, _, rfl, rfl,
      takes_argClass.mpr ⟨dir, rfl, rfl⟩, ?_⟩⟩
    exact takes_seq.mpr ⟨indexText index, lengths.text, _, _, rfl, rfl, takes_index.mpr ⟨index, rfl, rfl⟩,
      takes_lengths.mpr ⟨lengths, rfl, rfl⟩⟩

theorem takes_name : (alt argNm (.alt argStride argVector)).Takes word captures rest ↔
    ∃ name : NameSpelling, word = name.text ∧ captures = name.captures := by
  rw [takes_alt, takes_alt, takes_argNm, takes_argStride, takes_argVector]
  constructor
  · rintro (⟨v, same⟩ | ⟨dir, index, same⟩ | ⟨dir, index, lengths, same⟩)
    · exact ⟨_, same⟩
    · exact ⟨_, same⟩
    · exact ⟨_, same⟩
  · rintro ⟨name, same⟩
    cases name with
    | scale v => exact .inl ⟨v, same⟩
    | stride dir index => exact .inr (.inl ⟨dir, index, same⟩)
    | array dir index lengths => exact .inr (.inr ⟨dir, index, lengths, same⟩)

theorem paramPattern_sound (takes : paramPattern.Takes word captures rest) :
    ∃ (before after : Blanks) (s : Spelling),
      word = before.1 ++ (s.text ++ after.1) ∧ captures = s.captures ∧ rest = [] := by
  obtain ⟨_, _, _, _, rfl, rfl, padBefore, afterPad⟩ := takes_seq.mp takes
  obtain ⟨before, rfl, rfl, _⟩ := takes_pad.mp padBefore
  obtain ⟨_, _, _, _, rfl, rfl, typed, afterType⟩ := takes_seq.mp afterPad
  obtain ⟨type, rfl, rfl⟩ := typePattern_sound typed
  obtain ⟨_, _, _, _, rfl, rfl, separated, afterSeparator⟩ := takes_seq.mp afterType
  obtain ⟨separator, rfl, rfl⟩ := starSep_sound separated
  obtain ⟨_, _, _, _, rfl, rfl, named, afterName⟩ := takes_seq.mp afterSeparator
  obtain ⟨name, rfl, rfl⟩ := takes_name.mp named
  obtain ⟨_, _, _, _, rfl, rfl, padAfter, ends⟩ := takes_seq.mp afterName
  obtain ⟨rfl, rfl, last⟩ := takes_dollar.mp ends
  obtain ⟨after, rfl, rfl, stops⟩ := takes_pad.mp padAfter
  refine ⟨before, after, ⟨type, separator, name⟩, ?_, ?_, ?_⟩
  · simp only [Spelling.text, List.append_assoc, List.append_nil]
  · simp only [Spelling.captures, List.nil_append, List.append_nil]
  · -- a newline at the end would have been taken as a blank
    rcases last with rfl | rfl
    · rfl
    · exact absurd (stops '\n' rfl) (by decide)

theorem Spelling.head_text (s : Spelling) : ∀ c, s.text.head? = some c → isWordChar c = true := by
  have starts {front : List Char} (all : ∀ c ∈ front, isWordChar c = true) (nonempty : front ≠ [])
      (back : List Char) : ∀ c, (front ++ back).head? = some c → isWordChar c = true := by
    intro c starts
    rw [List.head?_append_of_ne_nil _ nonempty] at starts
    exact all c (List.mem_of_head? starts)
  rw [text]
  cases s.type with
  | plain name => exact starts name.isWord name.ne_nil _
  | constBefore gap name =>
      rw [TypeSpelling.text, List.append_assoc]
      exact starts constWord_isWord (by decide) _
  | constAfter name gap =>
      rw [TypeSpelling.text, List.append_assoc]
      exact starts name.isWord name.ne_nil _

theorem paramPattern_complete (s : Spelling) : paramPattern.Takes s.text s.captures [] := by
  have noBlanks : ∀ c ∈ ([] : List Char), isSpace c = true := fun _ no => by contradiction
  have ended : pad.Takes [] [] [] := takes_pad.mpr ⟨⟨[], noBlanks⟩, rfl, rfl, by simp⟩
  have begins (rest : List Char) {front : List Char} {p : Char → Bool} (nonempty : front ≠ [])
      (all : ∀ c ∈ front, p c = false) : ∀ c, (front ++ rest).head? = some c → p c = false := by
    intro c starts
    rw [List.head?_append_of_ne_nil _ nonempty] at starts
    exact all c (List.mem_of_head? starts)
  rw [paramPattern]
  refine takes_seq.mpr ⟨[], s.text, [], s.captures, rfl, rfl,
    takes_pad.mpr ⟨⟨[], noBlanks⟩, rfl, rfl, fun c starts => ?_⟩, ?_⟩
  · rw [List.append_nil] at starts
    exact not_isSpace_of_isWordChar (s.head_text c starts)
  refine takes_seq.mpr ⟨_, _, _, _, rfl, rfl, typePattern_complete s.type ?_, ?_⟩
  · rw [List.append_assoc]
    exact begins _ s.separator.text_ne_nil s.separator.not_isWordChar
  refine takes_seq.mpr ⟨_, _, _, _, rfl, rfl, starSep_complete s.separator ?_, ?_⟩
  · exact begins _ s.name.text_ne_nil fun c member => not_isSpace_of_isWordChar (s.name.isWord c member)
  refine takes_seq.mpr ⟨s.name.text, [], s.name.captures, [], by rw [List.append_nil], by rw [List.append_nil],
    takes_name.mpr ⟨s.name, rfl, rfl⟩, ?_⟩
  exact takes_seq.mpr ⟨[], [], [], [], rfl, rfl, ended, takes_dollar.mpr ⟨rfl, rfl, .inl rfl⟩⟩

theorem Spelling.last_text (s : Spelling) : ∀ c, s.text.getLast? = some c → isWordChar c = true := by
  rw [text, ← List.append_assoc]
  exact last_isWordChar _ s.name.isWord s.name.text_ne_nil

theorem strstrip_text (before after : Blanks) (s : Spelling) :
    strstrip (before.1 ++ (s.text ++ after.1)) = s.text :=
  strip_span before.2 after.2 (fun c starts => not_isSpace_of_isWordChar (s.head_text c starts))
    fun c ends => not_isSpace_of_isWordChar (s.last_text c ends)

theorem strstrip_strstrip (text : List Char) : strstrip (strstrip text) = strstrip text := by
  have starts : ∀ c, (strstrip text).head? = some c → isSpace c = false := by
    intro c starts
    obtain ⟨back, split⟩ := List.rdropWhile_prefix isSpace (l := text.dropWhile isSpace)
    have same : (text.dropWhile isSpace).head? = some c := by
      rw [← split, List.head?_append]
      rw [strstrip] at starts
      rw [starts]
      rfl
    have stopped := List.head?_dropWhile_not isSpace text
    rw [same] at stopped
    exact stopped
  have ends : ∀ c, (strstrip text).getLast? = some c → isSpace c = false := by
    intro c ends
    have nonempty : strstrip text ≠ [] := by
      intro none
      rw [none] at ends
      contradiction
    rw [List.getLast?_eq_some_getLast nonempty, Option.some.injEq] at ends
    have := List.rdropWhile_last_not isSpace (text.dropWhile isSpace) nonempty
    rw [← ends, ← Bool.not_eq_true]
    exact this
  have stripped := @strip_span Char isSpace [] [] (strstrip text)
    (fun _ no => by contradiction) (fun _ no => by contradiction) starts ends
  rwa [List.nil_append, List.append_nil] at stripped

/-! ## What the parser makes of a spelling -/

def Direction.argClass : Direction → ArgClass
  | i => .inplace
  | s => .src
  | d => .dest

/-- Variable and length before the stride, then after it. -/
def Lengths.values : Lengths → (Int × Int) × Int × Int
  | none => ((0, 1), (1, 0))
  | one len1 => ((0, 1), lenspecParse len1.text)
  | two len1 len2 => (lenspecParse len1.text, lenspecParse len2.text)

def NameSpelling.parameter : NameSpelling → OilParameter → OilParameter
  | scale _, param => param
  | stride dir index, param =>
      { param with isStride := true, argClass := dir.argClass, index := indexValue (indexText index) }
  | array dir index lengths, param =>
      { param with
        isPointer := true, argClass := dir.argClass, index := indexValue (indexText index)
        prestrideVar := lengths.values.1.1, prestrideLength := lengths.values.1.2
        poststrideVar := lengths.values.2.1, poststrideLength := lengths.values.2.2 }

/-- The parameter that a reading of `paramStr` stands for, if there are such a type and such
an argument. -/
def Reading.parameter (r : Reading) (paramStr : List Char) : Option OilParameter :=
  let cType := oilTypeParse r.typeName r.starred
  let param := r.name.parameter { cType }
  let argType := argTypeParse param.argClass param.isStride param.index
  if cType = .unknown ∨ argType = .unknown then none else some { param with argType, parameter := paramStr }

theorem LengthSpec.text_ne_nil (len : LengthSpec) : len.text ≠ [] := by
  cases len with
  | fixed digits => exact digits.2.1
  | var v => simp [text]
  | varPlus v digits => simp [text]

theorem Direction.argDirParse_letter (dir : Direction) : argDirParse [dir.letter] = some dir.argClass := by
  cases dir <;> rfl

section Fetch

variable (s : Spelling)

theorem fetch_type : fetchNamed s.captures "type" = s.type.word.1 := rfl

@[simp]
theorem fetchNamed_nil (name : String) : fetchNamed [] name = [] := rfl

@[simp]
theorem fetchNamed_cons (name' name : String) (captured : List Char) (captures : Captures) :
    fetchNamed ((name', captured) :: captures) name =
      if name' = name then captured else fetchNamed captures name := by
  simp only [fetchNamed, Captures.named, List.find?_cons]
  by_cases same : name' = name <;> simp [same]

/-- Neither the type nor the separator captures a group of the name. -/
theorem fetch_name (name : String) (notType : name ≠ "type") (notStar : name ≠ "star") :
    fetchNamed s.captures name = fetchNamed s.name.captures name := by
  rw [Spelling.captures]
  cases s.separator <;> simp [TypeSpelling.captures, Separator.captures, notType.symm, notStar.symm]

theorem fetch_star : decide (fetchNamed s.captures "star" ≠ []) = s.separator.starred := by
  have unset : fetchNamed s.name.captures "star" = [] := by
    cases s.name with
    | scale v => simp [NameSpelling.captures]
    | stride dir index => simp [NameSpelling.captures]
    | array dir index lengths => cases lengths <;> simp [NameSpelling.captures, Lengths.captures]
  rw [Spelling.captures]
  cases s.separator <;> simp [TypeSpelling.captures, Separator.captures, Separator.starred, unset]

theorem argParse_captures (cType : OilType) :
    argParse s.captures { cType } = some (s.name.parameter { cType }) := by
  simp only [argParse, fetch_name s "nm" (by decide) (by decide),
    fetch_name s "stride" (by decide) (by decide),
    fetch_name s "arg_class" (by decide) (by decide),
    fetch_name s "index" (by decide) (by decide),
    fetch_name s "len1" (by decide) (by decide),
    fetch_name s "len2" (by decide) (by decide)]
  cases s.name with
  | scale v => simp [NameSpelling.captures, NameSpelling.parameter]
  | stride dir index =>
      simp [NameSpelling.captures, NameSpelling.parameter, NameSpelling.text, dir.argDirParse_letter]
  | array dir index lengths =>
      cases lengths with
      | none =>
          simp [NameSpelling.captures, NameSpelling.parameter, Lengths.captures, Lengths.values,
            dir.argDirParse_letter]
      | one len1 =>
          simp [NameSpelling.captures, NameSpelling.parameter, Lengths.captures, Lengths.values,
            dir.argDirParse_letter, len1.text_ne_nil]
      | two len1 len2 =>
          simp [NameSpelling.captures, NameSpelling.parameter, Lengths.captures, Lengths.values,
            dir.argDirParse_letter, len1.text_ne_nil, len2.text_ne_nil]

end Fetch

theorem oilParamParse_captures {paramStr : List Char} {s : Spelling}
    (matched : paramPattern.firstMatch paramStr = some s.captures) :
    oilParamParse paramStr = s.reading.parameter paramStr := by
  rw [oilParamParse, matched, Option.bind_eq_bind, Option.bind_some]
  simp only [fetch_type, fetch_star, Reading.parameter, Spelling.reading]
  by_cases unknown : oilTypeParse s.type.word.1 s.separator.starred = .unknown
  · simp only [unknown, true_or, ↓reduceIte]
  · rw [if_neg unknown, argParse_captures]
    simp only [Option.bind_eq_bind, Option.bind_some, unknown, false_or]
    rfl

theorem oilParamParse_text (s : Spelling) : oilParamParse s.text = s.reading.parameter s.text := by
  obtain ⟨captures, matched⟩ := (paramPattern_complete s).exists_firstMatch
  rw [List.append_nil] at matched
  obtain ⟨word, rest, split, takes⟩ := firstMatch_takes matched
  obtain ⟨before, after, s', rfl, rfl, rfl⟩ := paramPattern_sound takes
  have same : s.text = s'.text := by
    have noBlanks : ∀ c ∈ ([] : List Char), isSpace c = true := fun _ no => by contradiction
    have stripped := strstrip_text ⟨[], noBlanks⟩ ⟨[], noBlanks⟩ s
    rw [List.append_nil, List.nil_append] at stripped
    rw [← stripped, split, List.append_nil, strstrip_text]
  rw [oilParamParse_captures matched, Spelling.reading_of_text same]

/-- Only spellings are parsed. -/
theorem spelling_of_oilParamParse {part : List Char} {p : OilParameter}
    (parsed : oilParamParse (strstrip part) = some p) : ∃ s : Spelling, s.text = strstrip part := by
  obtain ⟨captures, matched, _⟩ := Option.bind_eq_some_iff.mp parsed
  obtain ⟨word, rest, split, takes⟩ := firstMatch_takes matched
  obtain ⟨before, after, s, rfl, rfl, rfl⟩ := paramPattern_sound takes
  refine ⟨s, ?_⟩
  rw [← strstrip_strstrip, split, List.append_nil, strstrip_text]

end Oil.Test
