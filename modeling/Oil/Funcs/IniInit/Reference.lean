import Oil.Funcs.IniInit.ParseLine

namespace Oil.Funcs

open Oil.Data

/-- The reference interpreter: every line on its own, but for the section in force. -/
def interpretLines : Option (List UInt8) → (number : Nat) → List (List UInt8) → Loaded
  | _, _, [] => ⟨[], none⟩
  | sectionName, number, text :: rest =>
      match interpretLine sectionName text with
      | .error error => ⟨[], some (number, error)⟩
      | .ok (sectionName, calls) => (interpretLines sectionName (number + 1) rest).after calls

def interpretIni (text : List UInt8) : Loaded := interpretLines none 1 (text.splitOn newline)

/-- The bytes `left` behind a line in the buffer do not change what the line does, nor does
a difference between the section in force in the code and the one the text asks for. -/
def unspoilt (left text : List UInt8) (sectionName wanted : Option (List UInt8)) : Bool :=
  match chug text with
  | [] =>
      match chug left with
      | [] => true
      | c :: rest => c = '#'.toUInt8 || c = '['.toUInt8 && ']'.toUInt8 ∈ rest
  | c :: rest =>
      if c = '#'.toUInt8 || c = '='.toUInt8 then true
      else if c = '['.toUInt8 then ']'.toUInt8 ∈ rest || ']'.toUInt8 ∉ left
      else if '='.toUInt8 ∈ rest then left.all isBlank && sectionName = wanted
      else '='.toUInt8 ∉ left

/-- No line up to the first error is spoilt by what earlier lines left in the buffer.  The
text behind the last newline is copied with NULs behind it. -/
def unspoiltLines : (line : List UInt8) → (sectionName wanted : Option (List UInt8)) →
    List (List UInt8) → Bool
  | _, _, _, [] => true
  | _, sectionName, wanted, [text] => unspoilt [] text sectionName wanted
  | line, sectionName, wanted, text :: rest =>
      unspoilt (cstr line text.length) text sectionName wanted &&
        match parseLine (strncpy line text text.length) sectionName, interpretLine wanted text with
        | .ok (line, sectionName, _), .ok (wanted, _) => unspoiltLines line sectionName wanted rest
        | _, _ => true

section Stripping

variable {text left : List UInt8}

theorem chomp_append_blanks (text : List UInt8) (blanks : ∀ byte ∈ left, isBlank byte = true) :
    chomp (text ++ left) = chomp text := by
  rw [chomp, chomp, List.rdropWhile, List.rdropWhile, List.reverse_append, List.dropWhile_append_of_pos]
  intro byte member
  exact blanks byte (List.mem_reverse.mp member)

theorem chug_append (left : List UInt8) :
    chug (text ++ left) = if chug text = [] then chug left else chug text ++ left := by
  rw [chug, List.dropWhile_append]
  cases rest : List.dropWhile isBlank text with
  | nil => simp [chug, rest]
  | cons c rest' => simp [chug, rest]

theorem countP_blanks (blanks : ∀ byte ∈ left, isBlank byte = true) :
    left.countP (fun byte => !isBlank byte) = 0 := by
  rw [List.countP_eq_zero]
  intro byte member
  simp [blanks byte member]

theorem countP_strip (text : List UInt8) :
    (strip text).countP (fun byte => !isBlank byte) = text.countP fun byte => !isBlank byte := by
  obtain ⟨blanks, parts, _, trailing⟩ := chomp_append (chug text)
  calc (strip text).countP (fun byte => !isBlank byte)
      = (chug text).countP fun byte => !isBlank byte := by
        conv_rhs => rw [parts]
        rw [List.countP_append, countP_blanks trailing, Nat.add_zero, strip]
    _ = text.countP fun byte => !isBlank byte := by
        conv_rhs => rw [← List.takeWhile_append_dropWhile (p := isBlank) (l := text)]
        rw [List.countP_append, countP_blanks fun byte member => List.mem_takeWhile_imp member, Nat.zero_add, chug]

theorem strip_append_iff : strip (text ++ left) = strip text ↔ ∀ byte ∈ left, isBlank byte = true := by
  constructor
  · intro same
    have counts := congrArg (List.countP fun byte => !isBlank byte) same
    rw [countP_strip, countP_strip, List.countP_append, Nat.add_eq_left, List.countP_eq_zero] at counts
    intro byte member
    simpa using counts byte member
  · intro blanks
    rw [strip, chug_append]
    split
    case isTrue empty =>
      rw [strip, empty, chug, List.dropWhile_eq_nil_iff.mpr blanks]
    case isFalse => rw [chomp_append_blanks _ blanks, strip]

end Stripping

section Line

variable {text left : List UInt8} {sectionName wanted : Option (List UInt8)}

/-- Two lines that end in the same error, or both go on with the same calls. -/
def SameDeed : (code reference : Except IniError (Option (List UInt8) × List Activation)) → Prop
  | .error e, .error e' => e = e'
  | .ok (_, calls), .ok (_, calls') => calls = calls'
  | _, _ => False

theorem delimiters_differ :
    '['.toUInt8 ≠ '#'.toUInt8 ∧ '='.toUInt8 ≠ '#'.toUInt8 ∧ '['.toUInt8 ≠ '='.toUInt8 := by decide

theorem takeWhile_append_left (left : List UInt8) {c : UInt8} (present : c ∈ text) :
    (text ++ left).takeWhile (· ≠ c) = text.takeWhile (· ≠ c) ∧
    ((text ++ left).dropWhile (· ≠ c)).tail = (text.dropWhile (· ≠ c)).tail ++ left := by
  obtain ⟨parts, first⟩ := split_at_first present
  have passes : ∀ byte ∈ text.takeWhile (· ≠ c), decide (byte ≠ c) = true := by
    intro byte member
    simpa using List.mem_takeWhile_imp member
  have whole : text ++ left =
      text.takeWhile (· ≠ c) ++ c :: ((text.dropWhile (· ≠ c)).tail ++ left) := by
    conv_lhs => rw [parts]
    rw [List.append_assoc, List.cons_append]
  rw [whole, List.takeWhile_append_of_pos passes, List.dropWhile_append_of_pos passes,
    List.takeWhile_cons_of_neg (by simp), List.dropWhile_cons_of_neg (by simp), List.append_nil]
  exact ⟨rfl, rfl⟩

theorem unspoilt_iff (left text : List UInt8) (sectionName wanted : Option (List UInt8)) :
    unspoilt left text sectionName wanted = true ↔
    SameDeed (interpretLine sectionName (text ++ left)) (interpretLine wanted text) := by
  rw [unspoilt, interpretLine, interpretLine, chug_append]
  cases begins : chug text with
  | nil =>
      simp only [↓reduceIte]
      cases chug left with
      | nil => exact iff_of_true rfl rfl
      | cons c rest =>
          dsimp only
          by_cases comment : c = '#'.toUInt8
          · simp [comment, SameDeed]
          by_cases bracket : c = '['.toUInt8
          · by_cases closed : ']'.toUInt8 ∈ rest <;> simp [delimiters_differ, bracket, closed, SameDeed]
          · by_cases equal : c = '='.toUInt8
            · simp [delimiters_differ, delimiters_differ.2.2.symm, equal, SameDeed]
            · by_cases assigned : '='.toUInt8 ∈ rest <;>
                simp [comment, bracket, equal, assigned, SameDeed]
  | cons c rest =>
      simp only [reduceCtorEq, ↓reduceIte, List.cons_append]
      by_cases comment : c = '#'.toUInt8
      · simp [comment, SameDeed]
      by_cases equal : c = '='.toUInt8
      · simp [delimiters_differ, delimiters_differ.2.2.symm, equal, SameDeed]
      by_cases bracket : c = '['.toUInt8
      · by_cases closed : ']'.toUInt8 ∈ rest
        · simp [delimiters_differ, bracket, closed, SameDeed]
        · by_cases closedBehind : ']'.toUInt8 ∈ left <;>
            simp [delimiters_differ, bracket, closed, closedBehind, SameDeed]
      by_cases assigned : '='.toUInt8 ∈ rest
      · obtain ⟨key, value⟩ := takeWhile_append_left left (List.mem_cons_of_mem c assigned)
        rw [List.cons_append] at key value
        rw [if_neg (by simp [comment, equal]), if_neg bracket, if_pos assigned, if_neg comment, if_neg comment,
          if_neg bracket, if_neg bracket, if_neg equal, if_neg equal,
          if_pos (List.mem_append_left left assigned), if_pos assigned, key, value]
        simp only [SameDeed, List.cons.injEq, Activation.mk.injEq, and_true, true_and, strip_append_iff,
          Bool.and_eq_true, List.all_eq_true, decide_eq_true_eq]
        exact and_comm
      · by_cases assignedBehind : '='.toUInt8 ∈ left <;>
          simp [comment, bracket, equal, assigned, assignedBehind, SameDeed]

/-- A line with a key and an equal sign. -/
def isAssignment (text : List UInt8) : Bool :=
  match chug text with
  | [] => false
  | c :: rest => c ≠ '#'.toUInt8 && c ≠ '['.toUInt8 && c ≠ '='.toUInt8 && '='.toUInt8 ∈ rest

theorem isAssignment_append (left : List UInt8) (assignment : isAssignment text = true) :
    isAssignment (text ++ left) = true := by
  rw [isAssignment] at assignment
  rw [isAssignment, chug_append]
  cases begins : chug text with
  | nil => simp [begins] at assignment
  | cons c rest =>
      rw [begins] at assignment
      simp only [ne_eq, Bool.and_eq_true, decide_eq_true_eq] at assignment
      simp [assignment]

theorem calls_length {sectionName' : Option (List UInt8)} {calls : List Activation}
    (meant : interpretLine sectionName text = .ok (sectionName', calls)) :
    calls.length = if isAssignment text then 1 else 0 := by
  rw [interpretLine] at meant
  rw [isAssignment]
  cases begins : chug text with
  | nil =>
      rw [begins] at meant
      obtain ⟨_, rfl⟩ := Prod.mk.inj (Except.ok.inj meant)
      rfl
  | cons c rest =>
      simp only [begins] at meant
      split at meant
      case isTrue comment =>
        obtain ⟨_, rfl⟩ := Prod.mk.inj (Except.ok.inj meant)
        simp [comment]
      case isFalse comment =>
        split at meant
        case isTrue bracket =>
          split at meant
          case isTrue closed =>
            obtain ⟨_, rfl⟩ := Prod.mk.inj (Except.ok.inj meant)
            simp [bracket]
          case isFalse => contradiction
        case isFalse bracket =>
          split at meant
          case isTrue => contradiction
          case isFalse equal =>
            split at meant
            case isTrue assigned =>
              obtain ⟨_, rfl⟩ := Prod.mk.inj (Except.ok.inj meant)
              simp [comment, bracket, equal, assigned]
            case isFalse => contradiction

theorem calls_length_le {sectionName' wanted' : Option (List UInt8)} {calls calls' : List Activation}
    (code : interpretLine sectionName (text ++ left) = .ok (sectionName', calls))
    (reference : interpretLine wanted text = .ok (wanted', calls')) : calls'.length ≤ calls.length := by
  rw [calls_length code, calls_length reference]
  split
  case isTrue assignment => rw [if_pos (isAssignment_append left assignment)]
  case isFalse => exact Nat.zero_le _

end Line

end Oil.Funcs
