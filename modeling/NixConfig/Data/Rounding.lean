/-
# Rounding

The nearest multiple of a tenth, an even one at a tie. Most of what depends on
it depends on two facts only, and not on how ties are broken: the result is a
multiple of a tenth, and it is at most a twentieth away.

The nearest integer with ties away from zero is what truncating division gives
when the remainder decides whether to go one further.
-/

import Mathlib.Data.Rat.Floor

namespace NixConfig.Data

/-- The nearest integer, the even one at a tie. -/
def roundHalfEven (x : ℚ) : ℤ :=
  if x - ⌊x⌋ < 1 / 2 ∨ (x - ⌊x⌋ = 1 / 2 ∧ Even ⌊x⌋) then ⌊x⌋ else ⌊x⌋ + 1

/-- The nearest tenth. -/
def roundTenths (x : ℚ) : ℚ := roundHalfEven (10 * x) / 10

theorem abs_roundHalfEven_sub_le (x : ℚ) : |(roundHalfEven x : ℚ) - x| ≤ 1 / 2 := by
  have hlow := Int.floor_le x
  have hhigh := Int.lt_floor_add_one x
  rw [roundHalfEven, abs_le]
  split_ifs with hdown
  · have hhalf : x - ⌊x⌋ ≤ 1 / 2 := by
      rcases hdown with hless | ⟨htie, -⟩
      · exact hless.le
      · exact htie.le
    constructor <;> linarith
  · push Not at hdown
    have hhalf := hdown.1
    push_cast
    constructor <;> linarith

theorem abs_roundTenths_sub_le (x : ℚ) : |roundTenths x - x| ≤ 1 / 20 := by
  have hnear := abs_le.mp (abs_roundHalfEven_sub_le (10 * x))
  rw [roundTenths, abs_le]
  constructor <;> linarith

/-- Two multiples of a tenth that are less than a tenth apart are equal. -/
theorem eq_of_abs_sub_lt {m n : ℤ} (hnear : |(m : ℚ) / 10 - n / 10| < 1 / 10) : m = n := by
  rw [abs_lt] at hnear
  have hlow : (n : ℚ) < m + 1 := by linarith [hnear.1]
  have hhigh : (m : ℚ) < n + 1 := by linarith [hnear.2]
  have hlow : n < m + 1 := by exact_mod_cast hlow
  have hhigh : m < n + 1 := by exact_mod_cast hhigh
  omega

@[simp] theorem roundTenths_roundTenths (x : ℚ) : roundTenths (roundTenths x) = roundTenths x := by
  have hnear := abs_roundTenths_sub_le (roundTenths x)
  have hsame : roundHalfEven (10 * roundTenths x) = roundHalfEven (10 * x) :=
    eq_of_abs_sub_lt (lt_of_le_of_lt hnear (by norm_num))
  rw [roundTenths, hsame]
  rfl

/-- A rounded number that is greater is greater by a tenth. -/
theorem add_tenth_le_roundTenths {x y : ℚ} (hless : roundTenths x < roundTenths y) :
    roundTenths x + 1 / 10 ≤ roundTenths y := by
  rw [roundTenths, roundTenths, div_lt_div_iff_of_pos_right (by norm_num)] at hless
  have hstep : roundHalfEven (10 * x) + 1 ≤ roundHalfEven (10 * y) := by exact_mod_cast hless
  have hstep : (roundHalfEven (10 * x) : ℚ) + 1 ≤ roundHalfEven (10 * y) := by exact_mod_cast hstep
  rw [roundTenths, roundTenths]
  linarith

/-! ## Ties away from zero -/

/-- The nearest integer, the one farther from zero at a tie. -/
def roundHalfAway (x : ℚ) : ℤ := if 0 ≤ x then ⌊x + 1 / 2⌋ else ⌈x - 1 / 2⌉

theorem roundHalfAway_mono {x y : ℚ} (hle : x ≤ y) : roundHalfAway x ≤ roundHalfAway y := by
  unfold roundHalfAway
  split <;> split
  · exact Int.floor_le_floor (by linarith)
  · linarith
  · -- A negative number is rounded to at most zero, any other to at least zero.
    rename_i hx hy
    have hlow : ⌈x - 1 / 2⌉ ≤ 0 := Int.ceil_le.mpr (by push_cast; linarith)
    have hhigh : 0 ≤ ⌊y + 1 / 2⌋ := Int.le_floor.mpr (by push_cast; linarith)
    exact hlow.trans hhigh
  · exact Int.ceil_le_ceil (by linarith)

/-- A quotient is the truncated one and what its remainder adds. -/
theorem eq_tdiv_add_tmod_div (x : ℚ) :
    x = (x.num.tdiv x.den : ℚ) + (x.num.tmod x.den : ℚ) / x.den := by
  have hden : (x.den : ℚ) ≠ 0 := by exact_mod_cast x.den_nz
  have hsplit : ((x.den * x.num.tdiv x.den + x.num.tmod x.den : ℤ) : ℚ) = x.num :=
    congrArg _ (Int.mul_tdiv_add_tmod x.num x.den)
  push_cast at hsplit
  calc x = x.num / x.den := (Rat.num_div_den x).symm
    _ = _ := by rw [← hsplit]; field_simp

/-- Truncating division, one step further from zero when the remainder is at least half of
the divisor, rounds to the nearest integer. -/
theorem roundHalfAway_eq_tdiv (x : ℚ) :
    roundHalfAway x =
      if (x.den : ℤ) ≤ 2 * |x.num.tmod x.den| then
        if x < 0 then x.num.tdiv x.den - 1 else x.num.tdiv x.den + 1
      else x.num.tdiv x.den := by
  have hvalue := eq_tdiv_add_tmod_div x
  have hden : (0 : ℤ) < x.den := by exact_mod_cast x.den_pos
  have hdenRat : (0 : ℚ) < x.den := by exact_mod_cast x.den_pos
  have hlow : (-1 : ℚ) < x.num.tmod x.den / x.den := by
    rw [lt_div_iff₀ hdenRat, neg_one_mul]
    exact_mod_cast Int.lt_tmod_of_pos x.num hden
  have hhigh : (x.num.tmod x.den / x.den : ℚ) < 1 := by
    rw [div_lt_one hdenRat]
    exact_mod_cast Int.tmod_lt_of_pos x.num hden
  have hhalf : (x.den : ℤ) ≤ 2 * |x.num.tmod x.den| ↔
      (1 / 2 : ℚ) ≤ |(x.num.tmod x.den / x.den : ℚ)| := by
    rw [abs_div, Nat.abs_cast, div_le_div_iff₀ two_pos hdenRat, one_mul, mul_comm]
    norm_cast
  -- The remainder has the sign of the number.
  by_cases hx : 0 ≤ x
  · have hpart : (0 : ℚ) ≤ x.num.tmod x.den / x.den :=
      div_nonneg (by exact_mod_cast Int.tmod_nonneg _ (Rat.num_nonneg.mpr hx)) hdenRat.le
    rw [abs_of_nonneg hpart] at hhalf
    rw [roundHalfAway, if_pos hx, if_neg hx.not_gt, Int.floor_eq_iff]
    split
    · have hpast := hhalf.mp ‹_›
      push_cast
      constructor <;> linarith
    · have hbefore := not_le.mp (mt hhalf.mpr ‹_›)
      constructor <;> linarith
  · have hnegative : 0 ≤ (-x.num).tmod x.den :=
      Int.tmod_nonneg _ (neg_nonneg.mpr (Rat.num_nonpos.mpr (not_le.mp hx).le))
    have hpart : (x.num.tmod x.den / x.den : ℚ) ≤ 0 := by
      apply div_nonpos_of_nonpos_of_nonneg _ hdenRat.le
      rw [Int.neg_tmod] at hnegative
      exact_mod_cast neg_nonneg.mp hnegative
    rw [abs_of_nonpos hpart] at hhalf
    rw [roundHalfAway, if_neg hx, if_pos (not_le.mp hx), Int.ceil_eq_iff]
    split
    · have hpast := hhalf.mp ‹_›
      push_cast
      constructor <;> linarith
    · have hbefore := not_le.mp (mt hhalf.mpr ‹_›)
      constructor <;> linarith

end NixConfig.Data
