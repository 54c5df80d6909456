import Oil.Test.Numerals
import Oil.Test.Parameter.Rendering

namespace Oil.Test

open Oil.Data

/-! # The length of a length specification

`_lenspec_parse` leaves the base to `g_ascii_strtoll`, which reads a number with a zero before
it in octal. -/

/-- The number that the digits write in decimal. -/
def Digits.number (digits : Digits) : Nat := Nat.ofDigitChars 10 digits.1 0

/-- The variable and the length, the digits taken as decimal ones. -/
def LengthSpec.value : LengthSpec → Int × Int
  | fixed digits => (0, digits.number)
  | var v => (v.code, 0)
  | varPlus v digits => (v.code, digits.number)

def LengthSpec.digits : LengthSpec → Option Digits
  | fixed digits | varPlus _ digits => some digits
  | var _ => none

/-- Octal and decimal agree on the digits, or no zero asks for octal. -/
def Digits.ReadDecimal (digits : Digits) : Prop := digits.1.head? ≠ some '0' ∨ digits.number < 8

theorem digitValue_of_isDigit {c : Char} (digit : isDigit c = true) : digitValue c = c.toNat - '0'.toNat := by
  rw [digitValue, if_pos digit]

theorem digitValue_lt_ten {c : Char} (digit : isDigit c = true) : digitValue c < 10 := by
  have most : c.toNat ≤ '9'.toNat := (isDigit_iff.mp digit).2
  have nine : '9'.toNat = '0'.toNat + 9 := rfl
  rw [digitValue_of_isDigit digit]
  omega

theorem digitValue_pos {c : Char} (digit : isDigit c = true) (nonzero : c ≠ '0') : 0 < digitValue c := by
  have least : '0'.toNat ≤ c.toNat := (isDigit_iff.mp digit).1
  have distinct : c.toNat ≠ '0'.toNat := fun same => nonzero (Char.toNat_inj.mp same)
  rw [digitValue_of_isDigit digit]
  omega

variable {text : List Char}

theorem digitsValue_ten (digits : ∀ c ∈ text, isDigit c = true) (value : Nat) :
    digitsValue 10 text value = Nat.ofDigitChars 10 text value := by
  induction text generalizing value with
  | nil => rw [digitsValue, Nat.ofDigitChars_nil]
  | cons c rest ih =>
      obtain ⟨first, later⟩ := List.forall_mem_cons.mp digits
      rw [digitsValue, if_pos (digitValue_lt_ten first), ih later, Nat.ofDigitChars_cons,
        digitValue_of_isDigit first, Nat.mul_comm]

theorem le_digitsValue_ten (digits : ∀ c ∈ text, isDigit c = true) (value : Nat) :
    value ≤ digitsValue 10 text value := by
  induction text generalizing value with
  | nil => exact Nat.le_refl value
  | cons c rest ih =>
      obtain ⟨first, later⟩ := List.forall_mem_cons.mp digits
      have further := ih later (value * 10 + digitValue c)
      rw [digitsValue, if_pos (digitValue_lt_ten first)]
      omega

/-- An octal reading that has fallen behind never catches up. -/
theorem octal_lt_of_lt (digits : ∀ c ∈ text, isDigit c = true) {octal decimal : Nat} (behind : octal < decimal) :
    digitsValue 8 text octal < digitsValue 10 text decimal := by
  induction text generalizing octal decimal with
  | nil => exact behind
  | cons c rest ih =>
      obtain ⟨first, later⟩ := List.forall_mem_cons.mp digits
      rw [digitsValue, digitsValue, if_pos (digitValue_lt_ten first)]
      split
      case isTrue => exact ih later (by omega)
      case isFalse =>
        have further := le_digitsValue_ten later (decimal * 10 + digitValue c)
        omega

theorem octal_lt (digits : ∀ c ∈ text, isDigit c = true) (more : text ≠ []) {value : Nat} (positive : 0 < value) :
    digitsValue 8 text value < digitsValue 10 text value := by
  cases text with
  | nil => exact absurd rfl more
  | cons c rest =>
      obtain ⟨first, later⟩ := List.forall_mem_cons.mp digits
      rw [digitsValue, digitsValue, if_pos (digitValue_lt_ten first)]
      split
      case isTrue => exact octal_lt_of_lt later (by omega)
      case isFalse =>
        have further := le_digitsValue_ten later (value * 10 + digitValue c)
        omega

theorem octal_le (digits : ∀ c ∈ text, isDigit c = true) (value : Nat) :
    digitsValue 8 text value ≤ digitsValue 10 text value := by
  induction text generalizing value with
  | nil => exact Nat.le_refl value
  | cons c rest ih =>
      obtain ⟨first, later⟩ := List.forall_mem_cons.mp digits
      rcases Nat.eq_zero_or_pos value with rfl | positive
      · rw [digitsValue, digitsValue, if_pos (digitValue_lt_ten first), Nat.zero_mul]
        split
        case isTrue => exact ih later _
        case isFalse => exact Nat.zero_le _
      · exact Nat.le_of_lt (octal_lt digits (List.cons_ne_nil c rest) positive)

/-- Octal and decimal agree only on the numbers of one octal digit. -/
theorem octal_eq_iff (digits : ∀ c ∈ text, isDigit c = true) :
    digitsValue 8 text 0 = digitsValue 10 text 0 ↔ digitsValue 10 text 0 < 8 := by
  induction text with
  | nil => simp [digitsValue]
  | cons c rest ih =>
      obtain ⟨first, later⟩ := List.forall_mem_cons.mp digits
      have further := le_digitsValue_ten later (digitValue c)
      rw [digitsValue, digitsValue, if_pos (digitValue_lt_ten first), Nat.zero_mul, Nat.zero_add]
      by_cases zero : c = '0'
      · subst c
        exact ih later
      have positive := digitValue_pos first zero
      by_cases large : digitValue c < 8
      · rw [if_pos large]
        cases rest with
        | nil => simp only [digitsValue, large]
        | cons next rest =>
            have behind := octal_lt later (List.cons_ne_nil next rest) positive
            obtain ⟨second, last⟩ := List.forall_mem_cons.mp later
            have least := le_digitsValue_ten last (digitValue c * 10 + digitValue next)
            have step : digitsValue 10 (next :: rest) (digitValue c) =
                digitsValue 10 rest (digitValue c * 10 + digitValue next) := by
              rw [digitsValue, if_pos (digitValue_lt_ten second)]
            omega
      · rw [if_neg large]
        omega

theorem asciiStrtoll_octal {rest : List Char} (digits : ∀ c ∈ rest, isDigit c = true) :
    asciiStrtoll ('0' :: rest) = min (digitsValue 8 rest 0 : Int) (2 ^ 63 - 1 : Nat) := by
  unfold asciiStrtoll
  split
  case h_1 same => exact absurd (digits 'x' (by rw [(List.cons.inj same).2]; exact .head _)) (by decide)
  case h_2 same => exact absurd (digits 'X' (by rw [(List.cons.inj same).2]; exact .head _)) (by decide)
  case h_3 same => rw [(List.cons.inj same).2]
  case h_4 other => exact absurd rfl (other rest)

/-- What base 0 makes of a digit string is its decimal value only where the two bases agree. -/
theorem asciiStrtoll_eq_number_iff (digits : Digits) (small : digits.number < 2 ^ 63) :
    asciiStrtoll digits.1 = digits.number ↔ digits.ReadDecimal := by
  have decimal : digitsValue 10 digits.1 0 = digits.number := digitsValue_ten digits.2.2 0
  obtain ⟨c, rest, split, _⟩ := digits.exists_cons
  rw [Digits.ReadDecimal]
  rw [← decimal] at small ⊢
  by_cases zero : c = '0'
  · subst c
    have later : ∀ c ∈ rest, isDigit c = true := fun c member => digits.2.2 c (by rw [split]; exact .tail _ member)
    have skipped : digitsValue 10 digits.1 0 = digitsValue 10 rest 0 := by rw [split]; rfl
    have behind := octal_le later 0
    have agree := octal_eq_iff later
    rw [skipped] at small ⊢
    rw [split, asciiStrtoll_octal later, List.head?_cons]
    simp only [ne_eq, not_true_eq_false, false_or]
    omega
  · have notZero : digits.1.head? ≠ some '0' := by
      rw [split]
      exact fun same => zero (Option.some.inj same)
    rw [asciiStrtoll_of_head notZero]
    simp only [notZero, ne_eq, not_false_eq_true, true_or, iff_true]
    omega

theorem lenspecParse_fixed (digits : Digits) : lenspecParse digits.1 = (0, asciiStrtoll digits.1) := by
  obtain ⟨c, rest, same, digit⟩ := digits.exists_cons
  rw [same]
  unfold lenspecParse
  split
  case h_1 letter => exact absurd (List.cons.inj letter).1 (ne_of_isDigit digit (by decide))
  case h_2 letter => exact absurd (List.cons.inj letter).1 (ne_of_isDigit digit (by decide))
  case h_3 => rfl

theorem lenspecParse_var (v : ScaleVar) : lenspecParse [v.letter] = (v.code, 0) := by
  cases v <;> rfl

theorem lenspecParse_varPlus (v : ScaleVar) (digits : List Char) :
    lenspecParse (v.letter :: 'p' :: digits) = (v.code, asciiStrtoll digits) := by
  cases v <;> rfl

/-- A length specification is parsed to its variable and its decimal length exactly where its
digits, if it has any, read the same in base 0. -/
theorem lenspecParse_eq_value_iff {text rest : List Char} {captures : Captures}
    (matched : lenSpec.Takes text captures rest) :
    ∃ len : LengthSpec, text = len.text ∧
      ((∀ digits ∈ len.digits, digits.number < 2 ^ 63) →
        (lenspecParse text = len.value ↔ ∀ digits ∈ len.digits, digits.ReadDecimal)) := by
  obtain ⟨len, rfl, _⟩ := takes_lenSpec.mp matched
  refine ⟨len, rfl, ?_⟩
  intro small
  cases len with
  | fixed digits =>
      have reads := asciiStrtoll_eq_number_iff digits (small digits rfl)
      rw [LengthSpec.text, lenspecParse_fixed, LengthSpec.value, LengthSpec.digits]
      simpa using reads
  | var v =>
      rw [LengthSpec.text, lenspecParse_var, LengthSpec.value, LengthSpec.digits]
      simp
  | varPlus v digits =>
      have reads := asciiStrtoll_eq_number_iff digits (small digits rfl)
      rw [LengthSpec.text, lenspecParse_varPlus, LengthSpec.value, LengthSpec.digits]
      simpa using reads

def paddedTen : Digits := ⟨['0', '1', '0'], List.cons_ne_nil _ _, List.all_eq_true.mp rfl⟩

theorem lenspecParse_eq_value_iff_varPlus :
    ∃ len : LengthSpec, "np010".toList = len.text ∧
      ((∀ digits ∈ len.digits, digits.number < 2 ^ 63) →
        (lenspecParse "np010".toList = len.value ↔ ∀ digits ∈ len.digits, digits.ReadDecimal)) :=
  lenspecParse_eq_value_iff (takes_lenSpec.mpr ⟨.varPlus .n paddedTen, rfl, rfl⟩ : lenSpec.Takes _ [] [])

/-- Of the length 010, ten in decimal, eight are left. -/
theorem lenspecParse_octal :
    lenSpec.Takes (LengthSpec.fixed paddedTen).text [] [] ∧ (LengthSpec.fixed paddedTen).text = "010".toList ∧
      paddedTen.number < 2 ^ 63 ∧ (LengthSpec.fixed paddedTen).value = (0, 10) ∧
      lenspecParse (LengthSpec.fixed paddedTen).text = (0, 8) :=
  ⟨takes_lenSpec.mpr ⟨_, rfl, rfl⟩, rfl, by decide, rfl, rfl⟩

end Oil.Test
