import Tabletop.Text

/-! Runs of digits and the numbers they stand for.

A reader gives up at the digit where the number leaves its range. More digits
never make a number smaller, so it gives up exactly when the whole number is out
of range. -/

set_option autoImplicit false

namespace Tabletop

def Digits (text : List Char) : Prop := text ≠ [] ∧ ∀ char ∈ text, char.isDigit = true

/-- The text does not go on with a digit. -/
def DigitsEnd (text : List Char) : Prop := ∀ char ∈ text.head?, char.isDigit = false

def decimal (digits : List Char) : Nat := Nat.ofDigitChars 10 digits 0

@[simp] theorem digitsEnd_nil : DigitsEnd [] := by
  intro char first
  cases first

@[simp] theorem digitsEnd_cons {char : Char} {rest : List Char} :
    DigitsEnd (char :: rest) ↔ char.isDigit = false := by
  simp [DigitsEnd]

theorem not_digitsEnd_iff {text : List Char} :
    ¬DigitsEnd text ↔ ∃ char rest, text = char :: rest ∧ char.isDigit = true := by
  cases text with
  | nil => simp
  | cons char rest => simp

namespace Digits

theorem append {first second : List Char} (left : Digits first)
    (right : ∀ char ∈ second, char.isDigit = true) : Digits (first ++ second) := by
  refine ⟨List.append_ne_nil_of_left_ne_nil left.1 second, ?_⟩
  intro char member
  rcases List.mem_append.1 member with before | behind
  · exact left.2 char before
  · exact right char behind

theorem exists_cons {digits : List Char} (run : Digits digits) :
    ∃ char others, digits = char :: others ∧ char.isDigit = true := by
  obtain ⟨char, others, rfl⟩ := List.exists_cons_of_ne_nil run.1
  exact ⟨char, others, rfl, run.2 char (by simp)⟩

theorem takeWhile_append {digits rest : List Char} (run : Digits digits) (ends : DigitsEnd rest) :
    (digits ++ rest).takeWhile Char.isDigit = digits := by
  rw [List.takeWhile_append_of_pos run.2]
  cases rest with
  | nil => simp
  | cons char rest => simp [digitsEnd_cons.1 ends]

theorem dropWhile_append {digits rest : List Char} (run : Digits digits) (ends : DigitsEnd rest) :
    (digits ++ rest).dropWhile Char.isDigit = rest := by
  rw [List.dropWhile_append_of_pos run.2]
  cases rest with
  | nil => rfl
  | cons char rest => simp [digitsEnd_cons.1 ends]

theorem toDigits (number : Nat) : Digits (Nat.toDigits 10 number) :=
  ⟨Nat.toDigits_ne_nil, fun _ member => Nat.isDigit_of_mem_toDigits (by decide) (by decide) member⟩

end Digits

theorem digits_of_takeWhile {text : List Char} (some_digit : text.takeWhile Char.isDigit ≠ []) :
    Digits (text.takeWhile Char.isDigit) :=
  ⟨some_digit, List.all_eq_true.1 List.all_takeWhile⟩

theorem digitsEnd_dropWhile (text : List Char) : DigitsEnd (text.dropWhile Char.isDigit) := by
  intro char first
  have stop := List.head?_dropWhile_not Char.isDigit text
  rw [Option.mem_def.1 first] at stop
  exact stop

@[simp] theorem decimal_toDigits (number : Nat) : decimal (Nat.toDigits 10 number) = number :=
  Nat.ofDigitChars_ten_toDigits

namespace Numeral

theorem le_ofDigitChars (digits : List Char) (read : Nat) :
    read ≤ Nat.ofDigitChars 10 digits read := by
  rw [Nat.ofDigitChars_eq_ofDigitChars_zero]
  have power : 1 ≤ 10 ^ digits.length := Nat.pow_pos (by decide)
  have grown : 1 * read ≤ 10 ^ digits.length * read := Nat.mul_le_mul_right read power
  omega

theorem extend_of_digits {limit read : Nat} {beyond : NumeralFault} {digits : List Char}
    (within : read ≤ limit) (all : ∀ char ∈ digits, char.isDigit = true) :
    extend limit beyond read digits =
      if Nat.ofDigitChars 10 digits read ≤ limit then .ok (Nat.ofDigitChars 10 digits read)
      else .error beyond := by
  induction digits generalizing read with
  | nil => simp [extend, within]
  | cons char rest ih =>
    have digit := all char (by simp)
    have others : ∀ char ∈ rest, char.isDigit = true := fun other member => all other (by simp [member])
    simp only [extend, digit, if_true, Nat.ofDigitChars_cons]
    by_cases next : 10 * read + digitValue char ≤ limit
    · rw [if_pos next]
      exact ih next others
    · -- The number is beyond the limit already, and the digits behind keep it there.
      have grown := le_ofDigitChars rest (10 * read + (char.toNat - '0'.toNat))
      have beyondLimit : ¬Nat.ofDigitChars 10 rest (10 * read + (char.toNat - '0'.toNat)) ≤ limit := by
        unfold digitValue at next
        omega
      rw [if_neg next, if_neg beyondLimit]

theorem magnitude_of_digits {limit : Nat} {beyond : NumeralFault} {digits : List Char}
    (run : Digits digits) :
    magnitude limit beyond digits =
      if decimal digits ≤ limit then .ok (decimal digits) else .error beyond := by
  obtain ⟨char, rest, rfl⟩ := List.exists_cons_of_ne_nil run.1
  exact extend_of_digits (Nat.zero_le limit) run.2

end Numeral

end Tabletop
