import Oil.Test.Parameter.Model
import Mathlib.Algebra.Ring.Nat

namespace Oil.Test

/-! # Numerals

What the `strtol` family reads from numerals as `printf` writes them. -/

theorem digitValue_digitChar {digit : Nat} (small : digit < 16) : digitValue digit.digitChar = digit := by
  have table : ∀ digit : Fin 16, digitValue (digit : Nat).digitChar = digit := by decide
  exact table ⟨digit, small⟩

theorem digitsValue_append {base : Nat} {front : List Char} (digits : ∀ c ∈ front, digitValue c < base)
    (back : List Char) (value : Nat) :
    digitsValue base (front ++ back) value = digitsValue base back (digitsValue base front value) := by
  induction front generalizing value with
  | nil => rfl
  | cons c front ih =>
      obtain ⟨first, later⟩ := List.forall_mem_cons.mp digits
      rw [List.cons_append, digitsValue, if_pos first, ih later, digitsValue, if_pos first]

variable {base : Nat}

theorem toDigits_induction {motive : Nat → List Char → Prop} (two : 1 < base)
    (digit : ∀ n, n < base → motive n [n.digitChar])
    (more : ∀ n, base ≤ n → motive (n / base) (Nat.toDigits base (n / base)) →
      motive n (Nat.toDigits base (n / base) ++ [(n % base).digitChar])) (n : Nat) :
    motive n (Nat.toDigits base n) := by
  induction n using Nat.strong_induction_on with
  | _ n ih =>
      by_cases small : n < base
      · rw [Nat.toDigits_of_lt_base small]
        exact digit n small
      · have large : base ≤ n := Nat.le_of_not_lt small
        rw [Nat.toDigits_of_base_le two large]
        exact more n large (ih (n / base) (Nat.div_lt_self (by omega) two))

theorem digitValue_of_mem_toDigits (two : 1 < base) (most : base ≤ 16) (n : Nat) :
    ∀ c ∈ Nat.toDigits base n, digitValue c < base := by
  refine toDigits_induction (motive := fun _ text => ∀ c ∈ text, digitValue c < base) two ?_ ?_ n
  · intro n small c member
    rw [List.mem_singleton.mp member, digitValue_digitChar (Nat.lt_of_lt_of_le small most)]
    exact small
  · intro n _ front
    have last : n % base < base := Nat.mod_lt n (by omega)
    rw [List.forall_mem_append]
    refine ⟨front, fun c member => ?_⟩
    rw [List.mem_singleton.mp member, digitValue_digitChar (Nat.lt_of_lt_of_le last most)]
    exact last

theorem digitsValue_toDigits (two : 1 < base) (most : base ≤ 16) (n : Nat) :
    digitsValue base (Nat.toDigits base n) 0 = n := by
  refine toDigits_induction (motive := fun n text => digitsValue base text 0 = n) two ?_ ?_ n
  · intro n small
    have digit := digitValue_digitChar (Nat.lt_of_lt_of_le small most)
    rw [digitsValue, digit, if_pos small, digitsValue, Nat.zero_mul, Nat.zero_add]
  · intro n _ front
    have last : n % base < base := Nat.mod_lt n (by omega)
    have digit := digitValue_digitChar (Nat.lt_of_lt_of_le last most)
    rw [digitsValue_append (digitValue_of_mem_toDigits two most _), front, digitsValue, digit, if_pos last,
      digitsValue]
    exact Nat.div_add_mod' n base

/-- A positive number is written without leading zeros. -/
theorem head_toDigits_ne_zero (two : 1 < base) {n : Nat} (positive : 0 < n) :
    (Nat.toDigits base n).head? ≠ some '0' := by
  refine toDigits_induction (motive := fun n text => 0 < n → text.head? ≠ some '0') two ?_ ?_ n positive
  · intro n _ positive isZero
    have : n = 0 := Nat.digitChar_eq_zero.mp (Option.some.inj isZero)
    omega
  · intro n large front _
    rw [List.head?_append_of_ne_nil _ Nat.toDigits_ne_nil]
    exact front (Nat.div_pos large (by omega))

theorem isDigit_of_mem_toDigits {n : Nat} {c : Char} (member : c ∈ Nat.toDigits 10 n) : isDigit c = true := by
  have digit := Nat.isDigit_of_mem_toDigits (b := 10) (by decide) (Nat.le_refl _) member
  simpa [isDigit, Char.isDigit, Char.le_def] using digit

theorem asciiStrtoll_of_head {text : List Char} (notZero : text.head? ≠ some '0') :
    asciiStrtoll text = min (digitsValue 10 text 0 : Int) (2 ^ 63 - 1 : Nat) := by
  unfold asciiStrtoll
  split
  · exact absurd rfl notZero
  · exact absurd rfl notZero
  · exact absurd rfl notZero
  · rfl

/-- Reading with base 0 takes a decimal numeral without leading zeros for what it is. -/
theorem asciiStrtoll_toDigits {n : Nat} (small : n < 2 ^ 63) : asciiStrtoll (Nat.toDigits 10 n) = n := by
  rcases Nat.eq_zero_or_pos n with rfl | positive
  · rfl
  · rw [asciiStrtoll_of_head (head_toDigits_ne_zero (by decide) positive),
      digitsValue_toDigits (by decide) (by decide)]
    omega

end Oil.Test
