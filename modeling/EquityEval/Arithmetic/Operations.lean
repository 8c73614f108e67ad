import EquityEval.Arithmetic.Context

/-!
# Decimal operations

The operations compute their exact result on integers and fit it into the context. Each one
is described by a single lemma: its result rounds the exact result of the same operation on
values.
-/

namespace DecimalArithmetic

namespace Context

/-- The sign of a sum that is exactly zero. -/
def zeroSign (ctx : Context) (a b : Decimal) : Bool :=
  (a.negative && b.negative) || (ctx.rounding == .floor && a.negative != b.negative)

/-- The rounded sum. -/
def add (ctx : Context) (a b : Decimal) : Except DecimalException Decimal :=
  let e := min a.exponent b.exponent
  let sum := a.scaled e + b.scaled e
  ctx.finish (if sum = 0 then ctx.zeroSign a b else sum < 0) sum.natAbs 1 e

/-- The rounded difference. -/
def sub (ctx : Context) (a b : Decimal) : Except DecimalException Decimal :=
  ctx.add a b.copyNegate

/-- The rounded product. -/
def mul (ctx : Context) (a b : Decimal) : Except DecimalException Decimal :=
  ctx.finish (a.negative != b.negative) (a.coefficient * b.coefficient) 1 (a.exponent + b.exponent)

/-- The rounded quotient. -/
def div (ctx : Context) (a b : Decimal) : Except DecimalException Decimal :=
  if b.coefficient = 0 then
    .error (if a.coefficient = 0 then .invalidOperation else .divisionByZero)
  else
    ctx.finish (a.negative != b.negative) a.coefficient b.coefficient (a.exponent - b.exponent)

/-- The rounded absolute value. -/
def abs (ctx : Context) (a : Decimal) : Except DecimalException Decimal :=
  ctx.finish false a.coefficient 1 a.exponent

variable {ctx : Context} {a b r : Decimal}

/-- The sign factor of an integer times its magnitude is the integer. -/
theorem signFactor_mul_natAbs {n : ℤ} {s : Bool} (h : n ≠ 0 → s = decide (n < 0)) :
    signFactor s * (n.natAbs : ℚ) = n := by
  by_cases hzero : n = 0
  · simp [hzero]
  · rw [h hzero, Nat.cast_natAbs]
    rcases lt_or_gt_of_ne hzero with hneg | hpos
    · simp [signFactor, hneg, abs_of_neg hneg]
    · simp [signFactor, not_lt.mpr hpos.le, abs_of_pos hpos]

/-- Signs multiply by exclusive or. -/
theorem signFactor_xor (s t : Bool) : signFactor (s != t) = signFactor s * signFactor t := by
  cases s <;> cases t <;> norm_num [signFactor]

/-- A sign factor is its own inverse. -/
theorem signFactor_inv (s : Bool) : (signFactor s)⁻¹ = signFactor s := by
  cases s <;> norm_num [signFactor]

/-- The value of a decimal through its sign factor. -/
theorem value_eq (d : Decimal) :
    d.value = signFactor d.negative * (d.coefficient * (10 : ℚ) ^ d.exponent) :=
  value_eq_signFactor d.negative d.coefficient d.exponent

/-- The exact sum, as it is fitted. -/
theorem add_exact (ctx : Context) (a b : Decimal) : a.value + b.value =
    signFactor (if a.scaled (min a.exponent b.exponent) + b.scaled (min a.exponent b.exponent) = 0 then ctx.zeroSign a b
      else a.scaled (min a.exponent b.exponent) + b.scaled (min a.exponent b.exponent) < 0) *
      (((a.scaled (min a.exponent b.exponent) + b.scaled (min a.exponent b.exponent)).natAbs : ℚ) / (1 : ℕ) *
        (10 : ℚ) ^ min a.exponent b.exponent) := by
  rw [Nat.cast_one, div_one, ← mul_assoc, signFactor_mul_natAbs (fun hne => by rw [if_neg hne])]
  push_cast
  rw [add_mul, a.scaled_mul_zpow (min_le_left _ _), b.scaled_mul_zpow (min_le_right _ _)]

/-- The exact product, as it is fitted. -/
theorem mul_exact (a b : Decimal) : a.value * b.value = signFactor (a.negative != b.negative) *
    (((a.coefficient * b.coefficient : ℕ) : ℚ) / (1 : ℕ) * (10 : ℚ) ^ (a.exponent + b.exponent)) := by
  rw [value_eq a, value_eq b, signFactor_xor, zpow_add₀ (by norm_num)]
  push_cast
  ring

/-- The exact quotient, as it is fitted. -/
theorem div_exact (a b : Decimal) : a.value / b.value = signFactor (a.negative != b.negative) *
    ((a.coefficient : ℚ) / b.coefficient * (10 : ℚ) ^ (a.exponent - b.exponent)) := by
  rw [value_eq a, value_eq b, signFactor_xor, zpow_sub₀ (by norm_num), mul_div_mul_comm,
    div_eq_mul_inv (signFactor a.negative), signFactor_inv, mul_div_mul_comm]

/-- The exact absolute value, as it is fitted. -/
theorem abs_exact (a : Decimal) : |a.value| = signFactor false * ((a.coefficient : ℚ) / (1 : ℕ) * (10 : ℚ) ^ a.exponent) := by
  rw [a.abs_value]
  norm_num [signFactor]

/-- A sum rounds the sum of the values. -/
theorem add_rounds (hprec : 0 < ctx.prec) (h : ctx.add a b = .ok r) :
    ctx.Rounds (a.value + b.value) r := by
  rw [add_exact ctx a b]
  exact finish_rounds _ hprec one_pos h

/-- A difference rounds the difference of the values. -/
theorem sub_rounds (hprec : 0 < ctx.prec) (h : ctx.sub a b = .ok r) :
    ctx.Rounds (a.value - b.value) r := by
  have hr := add_rounds hprec h
  rwa [Decimal.value_copyNegate, ← sub_eq_add_neg] at hr

/-- A product rounds the product of the values. -/
theorem mul_rounds (hprec : 0 < ctx.prec) (h : ctx.mul a b = .ok r) :
    ctx.Rounds (a.value * b.value) r := by
  rw [mul_exact]
  exact finish_rounds _ hprec one_pos h

/-- A quotient rounds the quotient of the values. -/
theorem div_rounds (hprec : 0 < ctx.prec) (h : ctx.div a b = .ok r) :
    ctx.Rounds (a.value / b.value) r := by
  unfold div at h
  split at h
  · cases h
  · rename_i hb
    rw [div_exact]
    exact finish_rounds _ hprec (Nat.pos_of_ne_zero hb) h

/-- A quotient was taken by a nonzero divisor. -/
theorem div_value_ne_zero (h : ctx.div a b = .ok r) : b.value ≠ 0 := by
  unfold div at h
  split at h
  · cases h
  · rename_i hb
    rw [value_eq b]
    refine mul_ne_zero ?_ (mul_ne_zero (by exact_mod_cast hb) (zpow_ne_zero _ (by norm_num)))
    cases b.negative <;> norm_num [signFactor]

/-- An absolute value rounds the absolute value. -/
theorem abs_rounds (hprec : 0 < ctx.prec) (h : ctx.abs a = .ok r) : ctx.Rounds |a.value| r := by
  rw [abs_exact]
  exact finish_rounds _ hprec one_pos h

/-- A decimal with at most `prec` digits above the subnormal limit is representable. -/
theorem representable_value {d : Decimal} (hdigits : d.digits ≤ ctx.prec) (he : ctx.etiny ≤ d.exponent) :
    ctx.Representable d.value := by
  refine ⟨d.signed, d.exponent, ?_, he, rfl⟩
  rw [d.abs_signed]
  exact_mod_cast d.coefficient_lt.trans_le (Nat.pow_le_pow_right (by norm_num) hdigits)

/-- Fitting succeeds when the exact magnitude leaves one digit of room in the exponent range. -/
theorem finish_isOk {num den : ℕ} {exponent : ℤ} (negative : Bool) (hden : 0 < den)
    (hrange : ctx.Emin < ctx.Emax) (h : (num : ℚ) / den * (10 : ℚ) ^ exponent < (10 : ℚ) ^ ctx.Emax) :
    ∃ r, ctx.finish negative num den exponent = .ok r := by
  unfold finish
  split
  · exact ⟨_, rfl⟩
  · rename_i hnum
    have hlead := (fraction_bounds (Nat.pos_of_ne_zero hnum) hden exponent).1.trans_lt h
    have hlt : magnitude num den + exponent < ctx.Emax := (zpow_lt_zpow_iff_right₀ (by norm_num)).mp hlead
    rw [if_neg (by omega)]
    dsimp only
    split
    · exact ⟨_, rfl⟩
    · split
      · have hetop : ¬ ctx.etop < ctx.roundingExponent num den exponent + 1 := by
          unfold etop roundingExponent etiny
          omega
        rw [if_neg hetop]
        exact ⟨_, rfl⟩
      · exact ⟨_, rfl⟩

/-- A sum that leaves one digit of room in the exponent range is returned. -/
theorem add_isOk (hrange : ctx.Emin < ctx.Emax) (h : |a.value + b.value| < (10 : ℚ) ^ ctx.Emax) :
    ∃ r, ctx.add a b = .ok r := by
  unfold add
  dsimp only
  apply finish_isOk _ Nat.one_pos hrange
  have hpos : (0 : ℚ) < (10 : ℚ) ^ min a.exponent b.exponent := zpow_pos (by norm_num) _
  have hsum : ((a.scaled (min a.exponent b.exponent) + b.scaled (min a.exponent b.exponent) : ℤ) : ℚ) *
      (10 : ℚ) ^ min a.exponent b.exponent = a.value + b.value := by
    push_cast
    rw [add_mul, a.scaled_mul_zpow (min_le_left _ _), b.scaled_mul_zpow (min_le_right _ _)]
  rwa [Nat.cast_one, div_one, Nat.cast_natAbs, Int.cast_abs, ← abs_of_pos hpos, ← abs_mul, hsum]

/-- A quotient that leaves one digit of room in the exponent range is returned. -/
theorem div_isOk (hb : b.value ≠ 0) (hrange : ctx.Emin < ctx.Emax)
    (h : |a.value / b.value| < (10 : ℚ) ^ ctx.Emax) : ∃ r, ctx.div a b = .ok r := by
  have hcoefficient : b.coefficient ≠ 0 := by
    intro hzero
    exact hb (abs_eq_zero.mp (by rw [b.abs_value, hzero]; simp))
  unfold div
  rw [if_neg hcoefficient]
  apply finish_isOk _ (Nat.pos_of_ne_zero hcoefficient) hrange
  rw [abs_div, a.abs_value, b.abs_value] at h
  rwa [zpow_sub₀ (by norm_num), ← mul_div_mul_comm]

end Context

end DecimalArithmetic
