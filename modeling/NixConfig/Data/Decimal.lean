/-
# Decimal numerals

Signed numerals, decimals and fractions as trees, each with the text it is
written as and the number it denotes. A text is well formed if it is the text
of such a tree; the invariants are fields, so that a tree without digits, or a
fraction over zero, cannot be built.
-/

import Mathlib.Data.Nat.Digits.Lemmas
import Mathlib.Tactic.FieldSimp
import NixConfig.Data.Strings

namespace NixConfig.Data

/-! ## Digits -/

def digitChar (digit : Fin 10) : Char := Nat.digitChar digit

def digitByte (digit : Fin 10) : UInt8 := UInt8.ofNat (48 + digit)

/-- The number that some digits denote, the most significant one first. -/
def digitsValue (digits : List (Fin 10)) : ℕ := Nat.ofDigits 10 (digits.reverse.map Fin.val)

@[simp] theorem digitsValue_nil : digitsValue [] = 0 := rfl

theorem digitsValue_append (digits more : List (Fin 10)) :
    digitsValue (digits ++ more) = 10 ^ more.length * digitsValue digits + digitsValue more := by
  rw [digitsValue, List.reverse_append, List.map_append, Nat.ofDigits_append, List.length_map,
    List.length_reverse, add_comm]
  rfl

theorem digitsValue_cons (digit : Fin 10) (digits : List (Fin 10)) :
    digitsValue (digit :: digits) = 10 ^ digits.length * digit + digitsValue digits := by
  have happend := digitsValue_append [digit] digits
  simpa [digitsValue] using happend

theorem digitsValue_lt (digits : List (Fin 10)) : digitsValue digits < 10 ^ digits.length := by
  have hsmall : ∀ n ∈ digits.reverse.map Fin.val, n < 10 := by
    intro n hmem
    obtain ⟨digit, -, rfl⟩ := List.mem_map.mp hmem
    exact digit.isLt
  have hbound := Nat.ofDigits_lt_base_pow_length (by decide : 1 < 10) hsmall
  rwa [List.length_map, List.length_reverse] at hbound

theorem isDigit_digitChar (digit : Fin 10) : (digitChar digit).isDigit = true := by
  revert digit
  decide

theorem exists_digitChar {c : Char} (hdigit : c.isDigit = true) : ∃ digit, digitChar digit = c := by
  rw [Char.isDigit, Bool.and_eq_true, decide_eq_true_eq, decide_eq_true_eq] at hdigit
  obtain ⟨hlow, hhigh⟩ := hdigit
  have hlow : 48 ≤ c.toNat := hlow
  have hhigh : c.toNat ≤ 57 := hhigh
  have hchar : ∀ n : Fin 10, digitChar n = Char.ofNat (48 + n) := by decide
  refine ⟨⟨c.toNat - 48, by omega⟩, ?_⟩
  rw [hchar, Nat.add_sub_cancel' hlow, Char.ofNat_toNat]

@[simp] theorem utf8EncodeChar_digitChar (digit : Fin 10) :
    String.utf8EncodeChar (digitChar digit) = [digitByte digit] := by
  revert digit
  decide

@[simp] theorem utf8_digits (digits : List (Fin 10)) :
    utf8 (digits.map digitChar) = digits.map digitByte := by
  induction digits with
  | nil => rfl
  | cons digit rest ih => rw [List.map_cons, utf8_cons, utf8EncodeChar_digitChar, ih]; rfl

/-- Runes that are all digits. -/
theorem all_isDigit {rs : List (Option Char)} :
    (rs.all fun character => character.any Char.isDigit) = true ↔
      ∃ digits : List (Fin 10), rs = (digits.map digitChar).map some := by
  constructor
  · intro hall
    induction rs with
    | nil => exact ⟨[], rfl⟩
    | cons character rest ih =>
      rw [List.all_cons, Bool.and_eq_true] at hall
      obtain ⟨c, rfl, hc⟩ := (Option.any_eq_true _ _).mp hall.1
      obtain ⟨digit, rfl⟩ := exists_digitChar hc
      obtain ⟨digits, rfl⟩ := ih hall.2
      exact ⟨digit :: digits, rfl⟩
  · rintro ⟨digits, rfl⟩
    simp [isDigit_digitChar]

/-! ## Signs -/

inductive Sign
  | absent
  | plus
  | minus
  deriving DecidableEq

def Sign.chars : Sign → List Char
  | .absent => []
  | .plus => ['+']
  | .minus => ['-']

/-- What a sign multiplies by. -/
def Sign.unit : Sign → ℤ
  | .minus => -1
  | _ => 1

/-! ## Numerals, decimals and fractions -/

/-- A sign and digits. -/
structure Numeral where
  sign : Sign
  digits : List (Fin 10)
  digits_ne_nil : digits ≠ []

def Numeral.text (numeral : Numeral) : Text :=
  utf8 (numeral.sign.chars ++ numeral.digits.map digitChar)

def Numeral.value (numeral : Numeral) : ℤ := numeral.sign.unit * digitsValue numeral.digits

/-- A sign, digits and, after a point, more digits. The digits before the point may be
missing; those after it may not. -/
structure Decimal where
  sign : Sign
  whole : List (Fin 10)
  fraction : Option (List (Fin 10))
  digits_ne_nil : fraction.getD whole ≠ []

/-- The digits after the point. -/
def Decimal.places (decimal : Decimal) : List (Fin 10) := decimal.fraction.getD []

/-- Everything but the sign. -/
def Decimal.body (decimal : Decimal) : List Char :=
  decimal.whole.map digitChar ++ decimal.fraction.elim [] ('.' :: ·.map digitChar)

def Decimal.text (decimal : Decimal) : Text := utf8 (decimal.sign.chars ++ decimal.body)

def Decimal.value (decimal : Decimal) : ℚ :=
  decimal.sign.unit *
    (digitsValue decimal.whole + digitsValue decimal.places / 10 ^ decimal.places.length)

/-- The value from all the digits, read as one number. -/
theorem Decimal.value_eq (decimal : Decimal) :
    decimal.value = decimal.sign.unit * digitsValue (decimal.whole ++ decimal.places) /
      10 ^ decimal.places.length := by
  rw [Decimal.value, digitsValue_append]
  push_cast
  field_simp

theorem Decimal.value_eq_zero {decimal : Decimal} :
    decimal.value = 0 ↔ digitsValue (decimal.whole ++ decimal.places) = 0 := by
  have hunit : (decimal.sign.unit : ℚ) ≠ 0 := by
    cases decimal.sign <;> simp [Sign.unit]
  rw [Decimal.value_eq]
  simp [hunit]

/-- Two numerals with a bar between them, the second not zero. -/
structure Fraction where
  numerator : Numeral
  denominator : Numeral
  denominator_ne_zero : denominator.value ≠ 0

def Fraction.text (fraction : Fraction) : Text :=
  fraction.numerator.text ++ slash :: fraction.denominator.text

def Fraction.value (fraction : Fraction) : ℚ :=
  fraction.numerator.value / fraction.denominator.value

end NixConfig.Data
