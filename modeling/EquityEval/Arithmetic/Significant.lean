import EquityEval.Arithmetic.Binary64
import EquityEval.Arithmetic.Signals

/-!
# Rounding to significant digits

A number is rounded to some significant digits by rounding it, to even in a tie, to a whole multiple of
the unit in the last of them. A quotient that signals where it is below the normal range is the exact
quotient rounded once in this way.
-/

namespace DecimalArithmetic

open FloatArithmetic

/-- The unit in the last of the significant digits of a number. -/
def lastUnit (digits : ℕ) (q : ℚ) : ℚ := 10 ^ (Int.log 10 |q| - digits + 1)

/-- Round to significant digits, ties to even. -/
def significant (digits : ℕ) (q : ℚ) : ℚ := roundHalfEven (q / lastUnit digits q) * lastUnit digits q

/-- Rounding to an integer keeps a change of sign. -/
theorem roundHalfEven_neg (q : ℚ) : roundHalfEven (-q) = -roundHalfEven q := by
  have hfloor := Int.floor_le q
  have hlt := Int.lt_floor_add_one q
  by_cases hwhole : q = ⌊q⌋
  · rw [hwhole, ← Int.cast_neg, roundHalfEven_intCast, roundHalfEven_intCast]
  · -- between two integers the floor of the opposite is the opposite of the next one
    have hstrict : (⌊q⌋ : ℚ) < q := lt_of_le_of_ne hfloor fun h => hwhole h.symm
    have hneg : ⌊-q⌋ = -⌊q⌋ - 1 := by
      rw [Int.floor_eq_iff]
      push_cast
      constructor <;> linarith
    have hparity : (-⌊q⌋ - 1) % 2 = 0 ↔ ¬ ⌊q⌋ % 2 = 0 := by omega
    unfold roundHalfEven
    rw [hneg]
    push_cast
    rcases lt_trichotomy (q - ⌊q⌋) (1 / 2) with hlow | hhalf | hhigh
    · rw [if_neg, if_pos (.inl hlow)]
      · ring
      · rintro (h | ⟨h, -⟩) <;> linarith
    · have htie : -q - (-(⌊q⌋ : ℚ) - 1) = 1 / 2 := by linarith
      by_cases heven : ⌊q⌋ % 2 = 0
      · rw [if_neg, if_pos (.inr ⟨hhalf, heven⟩)]
        · ring
        · rintro (h | ⟨-, h⟩)
          · linarith
          · exact hparity.mp h heven
      · rw [if_pos (.inr ⟨htie, hparity.mpr heven⟩), if_neg]
        · ring
        · rintro (h | ⟨-, h⟩)
          · linarith
          · exact heven h
    · rw [if_pos (.inl (by linarith)), if_neg]
      · ring
      · rintro (h | ⟨h, -⟩) <;> linarith

/-- The rounded quotient of natural numbers rounds their fraction. -/
theorem roundHalfEven_div (negative : Bool) {num den : ℕ} (hden : 0 < den) :
    roundHalfEven ((num : ℚ) / den) = (Rounding.halfEven.quotient negative num den : ℕ) := by
  have hpos : (0 : ℚ) < den := by exact_mod_cast hden
  have hfloor : ⌊(num : ℚ) / den⌋ = ((num / den : ℕ) : ℤ) := by
    rw [Rat.floor_natCast_div_natCast, Int.natCast_ediv]
  have hrest : (num : ℚ) / den - (num / den : ℕ) = (num % den : ℕ) / den := by
    have hsplit : (num : ℚ) = den * (num / den : ℕ) + (num % den : ℕ) := by exact_mod_cast (Nat.div_add_mod num den).symm
    rw [eq_div_iff hpos.ne', sub_mul, div_mul_cancel₀ _ hpos.ne']
    linarith
  have hbelow : ((num % den : ℕ) : ℚ) / den < 1 / 2 ↔ 2 * (num % den) < den := by
    rw [div_lt_div_iff₀ hpos two_pos, one_mul, mul_comm]
    exact_mod_cast Iff.rfl
  have htie : ((num % den : ℕ) : ℚ) / den = 1 / 2 ↔ 2 * (num % den) = den := by
    rw [div_eq_div_iff hpos.ne' two_ne_zero, one_mul, mul_comm]
    exact_mod_cast Iff.rfl
  unfold roundHalfEven Rounding.quotient
  rw [hfloor, Int.cast_natCast, hrest]
  simp only [hbelow, htie]
  split_ifs <;> omega

variable {ctx : Context} {traps : Traps} {a b r : Decimal} {num den : ℕ} {exponent : ℤ} {negative : Bool}

/-- A sign does not change the unit of a number. -/
theorem abs_signFactor (negative : Bool) : |Context.signFactor negative| = 1 := by
  cases negative <;> norm_num [Context.signFactor]

/-- Rounding to significant digits keeps a sign. -/
theorem significant_signFactor (digits : ℕ) (negative : Bool) (q : ℚ) :
    significant digits (Context.signFactor negative * q) = Context.signFactor negative * significant digits q := by
  have hunit : lastUnit digits (Context.signFactor negative * q) = lastUnit digits q := by
    rw [lastUnit, abs_mul, abs_signFactor, one_mul, lastUnit]
  unfold significant
  rw [hunit]
  cases negative
  · simp [Context.signFactor]
  · simp only [Context.signFactor, if_true, neg_one_mul, neg_div, roundHalfEven_neg]
    push_cast
    ring

/-- The leading exponent of a fraction is its logarithm. -/
theorem log_fraction (hnum : 0 < num) (hden : 0 < den) (exponent : ℤ) :
    Int.log 10 |(num : ℚ) / den * (10 : ℚ) ^ exponent| = magnitude num den + exponent := by
  obtain ⟨hlow, hhigh⟩ := Context.fraction_bounds hnum hden exponent
  have hpos : (0 : ℚ) < num / den * (10 : ℚ) ^ exponent := (zpow_pos (by norm_num) _).trans_le hlow
  rw [abs_of_pos hpos]
  have hlog : magnitude num den + exponent ≤ Int.log 10 ((num : ℚ) / den * (10 : ℚ) ^ exponent) := by
    rw [← Int.zpow_le_iff_le_log (by norm_num) hpos]
    exact_mod_cast hlow
  have hlog' : Int.log 10 ((num : ℚ) / den * (10 : ℚ) ^ exponent) < magnitude num den + exponent + 1 := by
    rw [← Int.lt_zpow_iff_log_lt (by norm_num) hpos]
    exact_mod_cast hhigh
  omega

namespace Context

/-- A result that signals where it is below the normal range is the exact result, rounded once. -/
theorem settle_significant (hprec : 0 < ctx.prec) (hmode : ctx.rounding = .halfEven) (hsubnormal : traps.subnormal = true)
    (hden : 0 < den) (h : ctx.settle traps negative num den exponent = some r) :
    r.value = significant ctx.prec (signFactor negative * (num / den * (10 : ℚ) ^ exponent)) := by
  by_cases hnum : num = 0
  · subst hnum
    have hzero : r.value = 0 := by
      have hrounds := finish_rounds negative hprec hden (settle_eq_some h).1
      rw [hrounds.exact]
      · simp
      · simpa using ctx.representable_zero
    simp [hzero, significant, roundHalfEven]
  have hpos : 0 < num := Nat.pos_of_ne_zero hnum
  have hnormal : ¬ ctx.Subnormal num den exponent := by
    intro hlow
    rw [settle, if_pos (.inr ⟨hsubnormal, hlow⟩)] at h
    cases h
  -- the digits that are kept are the significant ones
  have hexponent : ctx.roundingExponent num den exponent = magnitude num den + exponent - ctx.prec + 1 := by
    unfold Subnormal at hnormal
    unfold roundingExponent etiny
    omega
  rw [significant_signFactor, value_finish negative hprec hnum (settle_eq_some h).1]
  congr 1
  have hunit : lastUnit ctx.prec ((num : ℚ) / den * (10 : ℚ) ^ exponent) = (10 : ℚ) ^ ctx.roundingExponent num den exponent := by
    rw [lastUnit, log_fraction hpos hden, hexponent]
  have hne : (10 : ℚ) ^ ctx.roundingExponent num den exponent ≠ 0 := zpow_ne_zero _ (by norm_num)
  unfold significant
  rw [hunit]
  congr 1
  have hfraction : (num : ℚ) / den * (10 : ℚ) ^ exponent / (10 : ℚ) ^ ctx.roundingExponent num den exponent =
      ((num * 10 ^ (exponent - ctx.roundingExponent num den exponent).toNat : ℕ) : ℚ) /
        (den * 10 ^ (ctx.roundingExponent num den exponent - exponent).toNat : ℕ) := by
    rw [← aligned_fraction num den exponent (ctx.roundingExponent num den exponent), mul_div_cancel_right₀ _ hne]
  rw [hfraction, roundHalfEven_div negative (aligned_pos hden _), roundedCoefficient, hmode]
  norm_cast

/-- A quotient that signals where it is below the normal range is the exact quotient, rounded once. -/
theorem div?_significant (hprec : 0 < ctx.prec) (hmode : ctx.rounding = .halfEven) (hsubnormal : traps.subnormal = true)
    (h : ctx.div? traps a b = some r) : r.value = significant ctx.prec (a.value / b.value) := by
  unfold div? at h
  split at h
  case isTrue => cases h
  case isFalse hb =>
    rw [div_exact]
    exact settle_significant hprec hmode hsubnormal (Nat.pos_of_ne_zero hb) h

end Context

end DecimalArithmetic
