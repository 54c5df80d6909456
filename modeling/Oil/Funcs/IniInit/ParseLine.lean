import Oil.Funcs.IniInit.Model

namespace Oil.Funcs

open Oil.Data

def chug (text : List UInt8) : List UInt8 := text.dropWhile isBlank

def chomp (text : List UInt8) : List UInt8 := text.rdropWhile isBlank

def strip (text : List UInt8) : List UInt8 := chomp (chug text)

/-- What one line means, given nothing but its text and the section in force. -/
def interpretLine (sectionName : Option (List UInt8)) (text : List UInt8) :
    Except IniError (Option (List UInt8) × List Activation) :=
  match chug text with
  | [] => .ok (sectionName, [])
  | c :: rest =>
      if c = '#'.toUInt8 then .ok (sectionName, [])
      else if c = '['.toUInt8 then
        if ']'.toUInt8 ∈ rest then .ok (some (strip (rest.takeWhile (· ≠ ']'.toUInt8))), [])
        else .error .notClosedBracket
      else if c = '='.toUInt8 then .error .emptyKey
      else if '='.toUInt8 ∈ rest then
        .ok (sectionName, [⟨sectionName, chomp ((c :: rest).takeWhile (· ≠ '='.toUInt8)),
          strip ((c :: rest).dropWhile (· ≠ '='.toUInt8)).tail⟩])
      else .error .noEqualSign

section Buffers

variable {line line' line'' : List UInt8} {i : Nat} {text : List UInt8}

/-- Editing keeps the buffer's size and the NULs in it. -/
def KeepsNuls (buffer edited : List UInt8) : Prop :=
  edited.length = buffer.length ∧ ∀ j : Nat, buffer[j]? = some 0 → edited[j]? = some 0

theorem KeepsNuls.refl (line : List UInt8) : KeepsNuls line line := ⟨rfl, fun _ => id⟩

theorem KeepsNuls.trans (first : KeepsNuls line line') (second : KeepsNuls line' line'') :
    KeepsNuls line line'' :=
  ⟨second.1.trans first.1, fun j nul => second.2 j (first.2 j nul)⟩

theorem keepsNuls_set (line : List UInt8) (i : Nat) : KeepsNuls line (line.set i 0) := by
  refine ⟨List.length_set, fun j nul => ?_⟩
  obtain ⟨bound, _⟩ := List.getElem?_eq_some_iff.mp nul
  by_cases same : i = j
  · rw [same, List.getElem?_set_self bound]
  · rwa [List.getElem?_set_ne same]

theorem keepsNuls_strChomp (line : List UInt8) (i : Nat) : KeepsNuls line (strChomp line i) := by
  rw [strChomp]
  split
  · exact .refl line
  · exact keepsNuls_set line _

theorem le_strChug (line : List UInt8) (i : Nat) : i ≤ strChug line i := Nat.le_add_right _ _

theorem holdsAt_strChug (holds : HoldsAt line i text) : HoldsAt line (strChug line i) (chug text) := by
  rw [strChug, holds.cstr_eq]
  apply HoldsAt.advance
  rwa [chug, List.takeWhile_append_dropWhile]

theorem chomp_append (text : List UInt8) :
    ∃ blanks, text = chomp text ++ blanks ∧ blanks.length = (text.reverse.takeWhile isBlank).length ∧
      ∀ byte ∈ blanks, isBlank byte = true := by
  refine ⟨(text.reverse.takeWhile isBlank).reverse, ?_, List.length_reverse, fun byte member => ?_⟩
  · conv_lhs => rw [← List.reverse_reverse text,
      ← List.takeWhile_append_dropWhile (p := isBlank) (l := text.reverse), List.reverse_append]
    rfl
  · exact List.mem_takeWhile_imp (List.mem_reverse.mp member)

theorem strChomp_cases (holds : HoldsAt line i text) :
    (strChomp line i = line ∧ text = []) ∨ strChomp line i = line.set (i + (chomp text).length) 0 := by
  obtain ⟨blanks, parts, length, _⟩ := chomp_append text
  rw [strChomp, holds.cstr_eq]
  split
  case isTrue empty => exact .inl ⟨rfl, empty⟩
  case isFalse =>
    right
    have total := congrArg List.length parts
    rw [List.length_append] at total
    rw [← length]
    congr 1
    omega

theorem holdsAt_strChomp (holds : HoldsAt line i text) : HoldsAt (strChomp line i) i (chomp text) := by
  obtain ⟨blanks, parts, _⟩ := chomp_append text
  rcases strChomp_cases holds with ⟨same, empty⟩ | written
  · rw [same, empty]
    rwa [empty] at holds
  · rw [written]
    cases blanks with
    | nil =>
        rw [List.append_nil] at parts
        rw [← parts]
        exact holds.set_end
    | cons byte blanks =>
        rw [parts] at holds
        exact holds.cut.1

theorem holdsAt_strChomp_earlier {j : Nat} {other : List UInt8} (holds : HoldsAt line i text)
    (earlier : HoldsAt line j other) (apart : j + other.length < i) :
    HoldsAt (strChomp line i) j other := by
  rcases strChomp_cases holds with ⟨same, _⟩ | written
  · rwa [same]
  · rw [written]
    exact earlier.set_behind (by omega)

theorem holdsAt_strChomp_later {j : Nat} {other : List UInt8} (holds : HoldsAt line i text)
    (later : HoldsAt line j other) (apart : i + text.length < j) :
    HoldsAt (strChomp line i) j other := by
  obtain ⟨blanks, parts, _⟩ := chomp_append text
  have total := congrArg List.length parts
  rw [List.length_append] at total
  rcases strChomp_cases holds with ⟨same, _⟩ | written
  · rwa [same]
  · rw [written]
    exact later.set_before (by omega)

end Buffers

section Lines

variable {c : UInt8} {text : List UInt8}

theorem header_held {line rest : List UInt8} {iter : Nat} (holds : HoldsAt line iter ('['.toUInt8 :: rest))
    (closed : ']'.toUInt8 ∈ rest) :
    ∃ rightBracket, strchr line iter ']'.toUInt8 = some rightBracket ∧
      cstr (strChomp (line.set rightBracket 0) (strChug (line.set rightBracket 0) (iter + 1)))
          (strChug (line.set rightBracket 0) (iter + 1)) = strip (rest.takeWhile (· ≠ ']'.toUInt8)) := by
  obtain ⟨parts, first⟩ := split_at_first closed
  have header : HoldsAt line iter (('['.toUInt8 :: rest.takeWhile (· ≠ ']'.toUInt8)) ++
      ']'.toUInt8 :: (rest.dropWhile (· ≠ ']'.toUInt8)).tail) := by
    rw [List.cons_append, ← parts]
    exact holds
  have firstInHeader : ']'.toUInt8 ∉ '['.toUInt8 :: rest.takeWhile (· ≠ ']'.toUInt8) := by
    rw [List.mem_cons, not_or]
    exact ⟨by decide, first⟩
  refine ⟨_, header.strchr_some firstInHeader, ?_⟩
  have content := HoldsAt.advance (show HoldsAt _ _ (['['.toUInt8] ++ _) from header.cut.1)
  exact (holdsAt_strChomp (holdsAt_strChug content)).cstr_eq

/-- Cutting an assignment at its equal sign and stripping both sides. -/
theorem assignment_held {line : List UInt8} {iter : Nat} (holds : HoldsAt line iter text)
    (assigned : '='.toUInt8 ∈ text) :
    ∃ equalSign, strchr line iter '='.toUInt8 = some equalSign ∧
      let cut := strChomp (line.set equalSign 0) iter
      let val := strChug cut (equalSign + 1)
      cstr (strChomp cut val) iter = chomp (text.takeWhile (· ≠ '='.toUInt8)) ∧
      cstr (strChomp cut val) val = strip (text.dropWhile (· ≠ '='.toUInt8)).tail := by
  obtain ⟨parts, first⟩ := split_at_first assigned
  rw [parts] at holds
  refine ⟨_, holds.strchr_some first, ?_⟩
  obtain ⟨keyHeld, valueHeld⟩ := holds.cut
  have keyChomped := holdsAt_strChomp keyHeld
  have valueChugged := holdsAt_strChug (holdsAt_strChomp_later keyHeld valueHeld (by omega))
  obtain ⟨blanks, whole, _⟩ := chomp_append (text.takeWhile (· ≠ '='.toUInt8))
  have total := congrArg List.length whole
  rw [List.length_append] at total
  have keyKept := holdsAt_strChomp_earlier valueChugged keyChomped
    (Nat.lt_of_lt_of_le (by omega) (le_strChug _ _))
  exact ⟨keyKept.cstr_eq, (holdsAt_strChomp valueChugged).cstr_eq⟩

/-- `parse_line` does to the string in the buffer what the line means. -/
theorem parseLine_spec {line : List UInt8} (sectionName : Option (List UInt8)) (holds : HoldsAt line 0 text) :
    (∃ error, parseLine line sectionName = .error error ∧ interpretLine sectionName text = .error error) ∨
    ∃ line' sectionName' calls, parseLine line sectionName = .ok (line', sectionName', calls) ∧
      interpretLine sectionName text = .ok (sectionName', calls) ∧ KeepsNuls line line' := by
  have chugged := holdsAt_strChug holds
  rw [parseLine, interpretLine, chugged.cstr_eq]
  dsimp only
  cases rest : chug text with
  | nil => exact .inr ⟨line, sectionName, [], rfl, rfl, .refl line⟩
  | cons c rest' =>
      rw [rest] at chugged
      dsimp only
      by_cases comment : c = '#'.toUInt8
      · simp only [comment, ↓reduceIte]
        exact .inr ⟨line, sectionName, [], rfl, rfl, .refl line⟩
      rw [if_neg comment, if_neg comment]
      by_cases bracket : c = '['.toUInt8
      · rw [if_pos bracket, if_pos bracket]
        by_cases closed : ']'.toUInt8 ∈ rest'
        · subst bracket
          obtain ⟨rightBracket, searched, stripped⟩ := header_held chugged closed
          rw [searched, if_pos closed]
          dsimp only
          refine .inr ⟨_, _, _, rfl, ?_, (keepsNuls_set line _).trans (keepsNuls_strChomp _ _)⟩
          rw [stripped]
        · have unclosed : ']'.toUInt8 ∉ c :: rest' := by
            rw [List.mem_cons, not_or, bracket]
            exact ⟨by decide, closed⟩
          rw [chugged.strchr_none unclosed, if_neg closed]
          exact .inl ⟨_, rfl, rfl⟩
      rw [if_neg bracket, if_neg bracket]
      by_cases equal : c = '='.toUInt8
      · rw [if_pos equal, if_pos equal]
        exact .inl ⟨_, rfl, rfl⟩
      rw [if_neg equal, if_neg equal]
      by_cases assigned : '='.toUInt8 ∈ rest'
      · obtain ⟨equalSign, searched, key, value⟩ := assignment_held chugged (List.mem_cons_of_mem c assigned)
        rw [searched, if_pos assigned]
        dsimp only
        refine .inr ⟨_, _, _, rfl, ?_,
          ((keepsNuls_set line _).trans (keepsNuls_strChomp _ _)).trans (keepsNuls_strChomp _ _)⟩
        rw [key, value]
      · have missing : '='.toUInt8 ∉ c :: rest' := by
          rw [List.mem_cons, not_or]
          exact ⟨Ne.symm equal, assigned⟩
        rw [chugged.strchr_none missing, if_neg assigned]
        exact .inl ⟨_, rfl, rfl⟩

end Lines

end Oil.Funcs
