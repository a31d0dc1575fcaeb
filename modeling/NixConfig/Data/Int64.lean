/-
# Signed 64-bit arithmetic

Values are integers; an operation is the exact one wrapped into 64 bits. A sum
guarded by a comparison with what is left of the range never wraps, so it is
the exact sum.
-/

import Mathlib.Algebra.BigOperators.Group.List.Basic

namespace NixConfig.Data

/-- `math.MaxInt64` -/
def maxInt64 : Int := 9223372036854775807

/-- The value of the low 64 bits of an integer, as a signed word. -/
def int64 (value : Int) : Int := (value + 9223372036854775808) % 18446744073709551616 -
  9223372036854775808

/-- The values of a signed word. -/
def IsInt64 (value : Int) : Prop := -9223372036854775808 ≤ value ∧ value ≤ maxInt64

instance (value : Int) : Decidable (IsInt64 value) :=
  inferInstanceAs (Decidable (_ ∧ _))

theorem int64_of_isInt64 {value : Int} (hvalue : IsInt64 value) : int64 value = value := by
  unfold IsInt64 maxInt64 at hvalue
  unfold int64
  omega

theorem isInt64_int64 (value : Int) : IsInt64 (int64 value) := by
  unfold IsInt64 maxInt64 int64
  omega

/-- What was wrapped on the way does not matter in the end. -/
theorem int64_int64_add (left right : Int) : int64 (int64 left + right) = int64 (left + right) := by
  unfold int64
  omega

def addInt64 (left right : Int) : Int := int64 (left + right)

def subInt64 (left right : Int) : Int := int64 (left - right)

def mulInt64 (left right : Int) : Int := int64 (left * right)

theorem subInt64_of_nonneg {left right : Int} (hleft : 0 ≤ left) (hleftMax : left ≤ maxInt64)
    (hright : 0 ≤ right) (hrightMax : right ≤ maxInt64) : subInt64 left right = left - right := by
  refine int64_of_isInt64 ⟨?_, ?_⟩
  · unfold maxInt64 at hrightMax
    omega
  · omega

/-- Add to a total unless the range is exceeded: the comparison with
`math.MaxInt64 - total` comes before the addition. -/
def guardedAdd (total value : Int) : Option Int :=
  if value > subInt64 maxInt64 total then none else some (addInt64 total value)

/-- A guarded addition to a total in range is exact and stays in range. -/
theorem guardedAdd_eq_some {total value sum : Int} (htotal : 0 ≤ total) (hmax : total ≤ maxInt64)
    (hvalue : 0 ≤ value) (hadd : guardedAdd total value = some sum) :
    sum = total + value ∧ sum ≤ maxInt64 := by
  have hleft : subInt64 maxInt64 total = maxInt64 - total :=
    subInt64_of_nonneg (by decide) (Int.le_refl _) htotal hmax
  unfold guardedAdd at hadd
  rw [hleft] at hadd
  split_ifs at hadd with hfits
  have hrange : IsInt64 (total + value) := ⟨by omega, by omega⟩
  cases hadd
  rw [addInt64, int64_of_isInt64 hrange]
  exact ⟨rfl, hrange.2⟩

end NixConfig.Data
