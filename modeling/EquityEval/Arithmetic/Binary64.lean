import Mathlib.Algebra.Order.Field.Power
import Mathlib.Data.Int.Log
import Mathlib.Data.Rat.Floor
import Mathlib.Tactic.Linarith
import Mathlib.Tactic.Positivity
import Mathlib.Tactic.FieldSimp
import Mathlib.Tactic.Ring

/-!
# Binary floating-point numbers

The result of an operation on double-precision numbers is the exact result rounded to 53
significant bits, ties to even. Numbers are the rationals that they stand for; the range of the
exponent is not limited. Rounding is monotone and moves a number by half a unit in its last place
at most.
-/

namespace FloatArithmetic

/-- Round to the nearest integer, ties to even. -/
def roundHalfEven (q : ℚ) : ℤ :=
  if q - ⌊q⌋ < 1 / 2 ∨ (q - ⌊q⌋ = 1 / 2 ∧ ⌊q⌋ % 2 = 0) then ⌊q⌋ else ⌊q⌋ + 1

/-- The unit in the last of the 53 bits of a number. -/
def ulp (q : ℚ) : ℚ := 2 ^ (Int.log 2 |q| - 52)

/-- Round to 53 significant bits, ties to even. -/
def binary64 (q : ℚ) : ℚ := roundHalfEven (q / ulp q) * ulp q

/-- Rounding to an integer moves a number by a half at most. -/
theorem roundHalfEven_error (q : ℚ) : |(roundHalfEven q : ℚ) - q| ≤ 1 / 2 := by
  have hfloor := Int.floor_le q
  have hlt := Int.lt_floor_add_one q
  unfold roundHalfEven
  split
  case isTrue h =>
    have hhalf : q - ⌊q⌋ ≤ 1 / 2 := by
      rcases h with h | h
      · exact h.le
      · exact h.1.le
    rw [abs_le]
    constructor <;> linarith
  case isFalse h =>
    rw [not_or, not_lt] at h
    push_cast
    rw [abs_le]
    constructor <;> linarith

/-- Rounding to an integer is monotone. -/
theorem roundHalfEven_mono {p q : ℚ} (h : p ≤ q) : roundHalfEven p ≤ roundHalfEven q := by
  have hp := abs_le.mp (roundHalfEven_error p)
  have hq := abs_le.mp (roundHalfEven_error q)
  by_contra hlt
  rw [not_le] at hlt
  have hstep : (roundHalfEven q : ℚ) + 1 ≤ roundHalfEven p := by exact_mod_cast hlt
  -- both are halfway between the same two integers
  have heq : p = q := by linarith
  rw [heq] at hlt
  exact lt_irrefl _ hlt

/-- An integer is rounded to itself. -/
theorem roundHalfEven_intCast (n : ℤ) : roundHalfEven n = n := by
  simp [roundHalfEven]

/-- A unit in the last place is positive. -/
theorem ulp_pos (q : ℚ) : 0 < ulp q := by
  unfold ulp
  positivity

/-- Rounding moves a number by half a unit in its last place at most. -/
theorem binary64_error (q : ℚ) : |binary64 q - q| ≤ ulp q / 2 := by
  have hpos := ulp_pos q
  have herror := roundHalfEven_error (q / ulp q)
  have hfactor : binary64 q - q = (roundHalfEven (q / ulp q) - q / ulp q) * ulp q := by
    unfold binary64
    field_simp
  rw [hfactor, abs_mul, abs_of_pos hpos]
  calc |(roundHalfEven (q / ulp q) : ℚ) - q / ulp q| * ulp q ≤ 1 / 2 * ulp q :=
        mul_le_mul_of_nonneg_right herror hpos.le
    _ = ulp q / 2 := by ring

/-- The unit in the last place of a number below a power of two. -/
theorem ulp_le {q : ℚ} {n : ℕ} (hq : 0 ≤ q) (hlt : q < 2 ^ (n + 1)) : ulp q ≤ 2 ^ ((n : ℤ) - 52) := by
  unfold ulp
  apply zpow_le_zpow_right₀ one_le_two
  have hlog : Int.log 2 |q| < (n : ℤ) + 1 := by
    rw [abs_of_nonneg hq]
    rcases hq.eq_or_lt with rfl | hpos
    · rw [Int.log_zero_right]
      omega
    · rw [← Int.lt_zpow_iff_log_lt one_lt_two hpos]
      exact_mod_cast hlt
  omega

/-- The error of a number below a power of two. -/
theorem binary64_error_le {q : ℚ} {n : ℕ} (hq : 0 ≤ q) (hlt : q < 2 ^ (n + 1)) :
    |binary64 q - q| ≤ 2 ^ ((n : ℤ) - 53) := by
  have hulp := ulp_le hq hlt
  have hhalf : (2 : ℚ) ^ ((n : ℤ) - 52) / 2 = 2 ^ ((n : ℤ) - 53) := by
    rw [show (n : ℤ) - 52 = (n - 53) + 1 by ring, zpow_add_one₀ two_ne_zero]
    ring
  calc |binary64 q - q| ≤ ulp q / 2 := binary64_error q
    _ ≤ 2 ^ ((n : ℤ) - 52) / 2 := by linarith
    _ = 2 ^ ((n : ℤ) - 53) := hhalf

/-- The binary exponent of a positive number bounds it on both sides. -/
theorem exponent_bounds {q : ℚ} (hq : 0 < q) :
    (2 : ℚ) ^ Int.log 2 q ≤ q ∧ q < 2 ^ (Int.log 2 q + 1) := by
  have hlow := Int.zpow_log_le_self (b := 2) one_lt_two hq
  have hhigh := Int.lt_zpow_succ_log_self (b := 2) one_lt_two q
  exact ⟨by exact_mod_cast hlow, by exact_mod_cast hhigh⟩

/-- A rounded number stays between the powers of two around it. -/
theorem binary64_bounds {q : ℚ} (hq : 0 < q) :
    (2 : ℚ) ^ Int.log 2 q ≤ binary64 q ∧ binary64 q ≤ 2 ^ (Int.log 2 q + 1) := by
  obtain ⟨hlow, hhigh⟩ := exponent_bounds hq
  have hulp : ulp q = 2 ^ (Int.log 2 q - 52) := by rw [ulp, abs_of_pos hq]
  have hpos := ulp_pos q
  have hscale : ∀ k : ℕ, (2 : ℚ) ^ (Int.log 2 q - 52 + k) = ((2 ^ k : ℤ) : ℚ) * ulp q := by
    intro k
    rw [hulp, zpow_add₀ two_ne_zero, zpow_natCast]
    push_cast
    ring
  have hbottom : (2 : ℚ) ^ Int.log 2 q = ((2 ^ 52 : ℤ) : ℚ) * ulp q := by
    rw [← hscale 52]
    congr 1
    push_cast
    ring
  have htop : (2 : ℚ) ^ (Int.log 2 q + 1) = ((2 ^ 53 : ℤ) : ℚ) * ulp q := by
    rw [← hscale 53]
    congr 1
    push_cast
    ring
  rw [hbottom] at hlow ⊢
  rw [htop] at hhigh ⊢
  have hfloor : ((2 ^ 52 : ℤ) : ℚ) ≤ q / ulp q := by rwa [le_div_iff₀ hpos]
  have hceil : q / ulp q ≤ ((2 ^ 53 : ℤ) : ℚ) := by
    rw [div_le_iff₀ hpos]
    exact hhigh.le
  have hround := roundHalfEven_mono hfloor
  have hround' := roundHalfEven_mono hceil
  rw [roundHalfEven_intCast] at hround hround'
  unfold binary64
  exact ⟨mul_le_mul_of_nonneg_right (by exact_mod_cast hround) hpos.le,
    mul_le_mul_of_nonneg_right (by exact_mod_cast hround') hpos.le⟩

/-- Zero is rounded to itself. -/
theorem binary64_zero : binary64 0 = 0 := by
  simp [binary64, roundHalfEven]

/-- Rounding is monotone. -/
theorem binary64_mono {p q : ℚ} (hp : 0 ≤ p) (h : p ≤ q) : binary64 p ≤ binary64 q := by
  rcases hp.eq_or_lt with rfl | hp
  · rcases h.eq_or_lt with rfl | hq
    · exact le_refl _
    · rw [binary64_zero]
      exact (zpow_pos two_pos _).le.trans (binary64_bounds hq).1
  · have hq := hp.trans_le h
    rcases (Int.log_mono_right hp h : Int.log 2 p ≤ Int.log 2 q).eq_or_lt with hlog | hlog
    · -- the same exponent, so the same unit
      have hulp : ulp p = ulp q := by rw [ulp, ulp, abs_of_pos hp, abs_of_pos hq, hlog]
      unfold binary64
      rw [hulp]
      apply mul_le_mul_of_nonneg_right _ (ulp_pos q).le
      exact_mod_cast roundHalfEven_mono (div_le_div_of_nonneg_right h (ulp_pos q).le)
    · calc binary64 p ≤ 2 ^ (Int.log 2 p + 1) := (binary64_bounds hp).2
        _ ≤ 2 ^ Int.log 2 q := zpow_le_zpow_right₀ one_le_two hlog
        _ ≤ binary64 q := (binary64_bounds hq).1

end FloatArithmetic
