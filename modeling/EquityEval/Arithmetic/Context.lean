import EquityEval.Arithmetic.Rounding

/-!
# Fitting an exact result into a precision context

An operation computes its exact result as a fraction and then fits it into the context:
the coefficient keeps at most `prec` digits, the exponent does not fall below the
subnormal limit, and a result beyond the exponent range raises `overflow`. A result that
fits exactly keeps the exponent nearest to the ideal one.

`Context.Rounds` collects what every caller may assume of a fitted result: directed modes
bound the exact result on their side, and no mode crosses a number that the context
represents.
-/

namespace DecimalArithmetic

/-- The signals that an operation raises instead of returning a number. -/
inductive DecimalException where
  | overflow
  | divisionByZero
  | invalidOperation
deriving DecidableEq, Repr

/-- Precision, rounding mode and exponent range of an operation. -/
structure Context where
  prec : ℕ
  rounding : Rounding
  Emin : ℤ
  Emax : ℤ
deriving DecidableEq, Repr

namespace Context

/-- The exponent of the smallest subnormal. -/
def etiny (ctx : Context) : ℤ := ctx.Emin - ctx.prec + 1

/-- The largest exponent of a coefficient with `prec` digits. -/
def etop (ctx : Context) : ℤ := ctx.Emax - ctx.prec + 1

/-- The exponent at which a nonzero exact result is rounded. -/
def roundingExponent (ctx : Context) (num den : ℕ) (exponent : ℤ) : ℤ :=
  max (magnitude num den + exponent + 1 - ctx.prec) ctx.etiny

/-- Drop trailing zeros of an exact coefficient, moving the exponent up by at most `fuel`. -/
def strip : ℕ → Decimal → Decimal
  | 0, d => d
  | fuel + 1, d =>
    if d.coefficient % 10 = 0 then
      strip fuel { d with coefficient := d.coefficient / 10, exponent := d.exponent + 1 }
    else d

/-- Fit the exact result `± num / den * 10 ^ exponent` into the context.

The given exponent is the ideal one of the operation. -/
def finish (ctx : Context) (negative : Bool) (num den : ℕ) (exponent : ℤ) :
    Except DecimalException Decimal :=
  if num = 0 then .ok ⟨negative, 0, min (max exponent ctx.etiny) ctx.Emax⟩
  else if ctx.Emax < magnitude num den + exponent then .error .overflow
  else
    let e := ctx.roundingExponent num den exponent
    let n := num * 10 ^ (exponent - e).toNat
    let d := den * 10 ^ (e - exponent).toNat
    let coefficient := ctx.rounding.quotient negative n d
    if n % d = 0 then .ok (strip (exponent - e).toNat ⟨negative, coefficient, e⟩)
    else if coefficient = 10 ^ ctx.prec then
      -- rounding up carried into a new digit
      if ctx.etop < e + 1 then .error .overflow
      else .ok ⟨negative, coefficient / 10, e + 1⟩
    else .ok ⟨negative, coefficient, e⟩

/-- A number with at most `prec` digits and no digit below the subnormal limit. -/
def Representable (ctx : Context) (z : ℚ) : Prop :=
  ∃ (m : ℤ) (e : ℤ), |m| < 10 ^ ctx.prec ∧ ctx.etiny ≤ e ∧ z = m * (10 : ℚ) ^ e

/-- What a caller may assume of the fitted result `r` of the exact result `q`. -/
structure Rounds (ctx : Context) (q : ℚ) (r : Decimal) : Prop where
  floor : ctx.rounding = .floor → r.value ≤ q
  ceiling : ctx.rounding = .ceiling → q ≤ r.value
  le_of_le : ∀ z, ctx.Representable z → q ≤ z → r.value ≤ z
  ge_of_ge : ∀ z, ctx.Representable z → z ≤ q → z ≤ r.value
  representable : ctx.Representable r.value

/-- Zero is representable. -/
theorem representable_zero (ctx : Context) : ctx.Representable 0 :=
  ⟨0, ctx.etiny, by simp, le_rfl, by simp⟩

/-- The representable numbers are closed under a change of sign. -/
theorem Representable.neg {ctx : Context} {z : ℚ} (h : ctx.Representable z) :
    ctx.Representable (-z) := by
  obtain ⟨m, e, hm, he, rfl⟩ := h
  exact ⟨-m, e, by rwa [abs_neg], he, by push_cast; ring⟩

/-- An exact result that the context represents is returned unchanged. -/
theorem Rounds.exact {ctx : Context} {q : ℚ} {r : Decimal} (h : ctx.Rounds q r)
    (hq : ctx.Representable q) : r.value = q :=
  le_antisymm (h.le_of_le q hq le_rfl) (h.ge_of_ge q hq le_rfl)

/-- A fitted result keeps the sign of the exact result or vanishes. -/
theorem Rounds.nonneg {ctx : Context} {q : ℚ} {r : Decimal} (h : ctx.Rounds q r) (hq : 0 ≤ q) :
    0 ≤ r.value :=
  h.ge_of_ge 0 ctx.representable_zero hq

/-- A nonpositive exact result has a nonpositive fitted result. -/
theorem Rounds.nonpos {ctx : Context} {q : ℚ} {r : Decimal} (h : ctx.Rounds q r) (hq : q ≤ 0) :
    r.value ≤ 0 :=
  h.le_of_le 0 ctx.representable_zero hq

/-- Dropping trailing zeros keeps the value. -/
@[simp] theorem value_strip (fuel : ℕ) (d : Decimal) : (strip fuel d).value = d.value := by
  induction fuel generalizing d with
  | zero => rfl
  | succ fuel ih =>
    unfold strip
    split
    · rename_i hzero
      obtain ⟨c, hc⟩ := Nat.dvd_of_mod_eq_zero hzero
      rw [ih]
      have hten : (10 : ℚ) ^ (d.exponent + 1) = 10 ^ d.exponent * 10 := zpow_add_one₀ (by norm_num) _
      unfold Decimal.value Decimal.signed
      simp only [hc, Nat.mul_div_cancel_left c (by norm_num : 0 < 10), hten]
      split <;> push_cast <;> ring
    · rfl

/-- The sign as a factor. -/
def signFactor (negative : Bool) : ℚ := if negative then -1 else 1

/-- A triple denotes its sign times its coefficient at its exponent. -/
theorem value_eq_signFactor (negative : Bool) (c : ℕ) (e : ℤ) :
    (⟨negative, c, e⟩ : Decimal).value = signFactor negative * (c * (10 : ℚ) ^ e) := by
  cases negative <;> simp [Decimal.value, Decimal.signed, signFactor]

/-- Alignment to the rounding exponent keeps the fraction. -/
theorem aligned_fraction (num den : ℕ) (exponent e : ℤ) :
    ((num * 10 ^ (exponent - e).toNat : ℕ) : ℚ) / (den * 10 ^ (e - exponent).toNat : ℕ) * (10 : ℚ) ^ e =
      num / den * (10 : ℚ) ^ exponent := by
  have hten : (10 : ℚ) ^ exponent =
      (10 : ℚ) ^ (exponent - e).toNat / (10 : ℚ) ^ (e - exponent).toNat * (10 : ℚ) ^ e := by
    rw [← neg_sub exponent e, ← zpow_eq_div_pow, ← zpow_add₀ (by norm_num), sub_add_cancel]
  rw [hten]
  push_cast
  rw [mul_div_mul_comm, mul_assoc]

/-- The exact magnitude lies between consecutive powers of ten. -/
theorem fraction_bounds {num den : ℕ} (hnum : 0 < num) (hden : 0 < den) (exponent : ℤ) :
    (10 : ℚ) ^ (magnitude num den + exponent) ≤ num / den * (10 : ℚ) ^ exponent ∧
      (num : ℚ) / den * (10 : ℚ) ^ exponent < (10 : ℚ) ^ (magnitude num den + exponent + 1) := by
  obtain ⟨hlo, hhi⟩ := magnitude_bounds hnum hden
  have hp : (0 : ℚ) < (10 : ℚ) ^ exponent := zpow_pos (by norm_num) _
  constructor
  · rw [zpow_add₀ (by norm_num)]
    exact mul_le_mul_of_nonneg_right hlo hp.le
  · rw [add_right_comm, zpow_add₀ (by norm_num)]
    exact mul_lt_mul_of_pos_right hhi hp

section Fitted

variable {ctx : Context} {num den : ℕ} {exponent : ℤ} (negative : Bool)

/-- The rounded coefficient of the exact magnitude `num / den * 10 ^ exponent`. -/
def roundedCoefficient (ctx : Context) (negative : Bool) (num den : ℕ) (exponent : ℤ) : ℕ :=
  let e := ctx.roundingExponent num den exponent
  ctx.rounding.quotient negative (num * 10 ^ (exponent - e).toNat) (den * 10 ^ (e - exponent).toNat)

/-- A fitted nonzero result denotes the rounded coefficient at the rounding exponent. -/
theorem value_finish {r : Decimal} (hprec : 0 < ctx.prec) (hnum : num ≠ 0)
    (h : ctx.finish negative num den exponent = .ok r) :
    r.value = signFactor negative * (ctx.roundedCoefficient negative num den exponent *
      (10 : ℚ) ^ ctx.roundingExponent num den exponent) := by
  rw [← value_eq_signFactor]
  unfold finish at h
  rw [if_neg hnum] at h
  split at h
  · cases h
  · dsimp only at h
    split at h
    · cases h
      rw [value_strip]
      rfl
    · split at h
      · rename_i hcarry
        split at h
        · cases h
        · cases h
          -- the carried coefficient is a power of ten, so its last digit is zero
          obtain ⟨p, hp⟩ : ∃ p, ctx.prec = p + 1 := ⟨ctx.prec - 1, by omega⟩
          rw [value_eq_signFactor, value_eq_signFactor]
          unfold roundedCoefficient
          dsimp only
          rw [hcarry, hp, pow_succ, Nat.mul_div_cancel _ (by norm_num),
            zpow_add_one₀ (by norm_num : (10 : ℚ) ≠ 0)]
          push_cast
          ring
      · cases h
        rfl

/-- The aligned denominator stays positive. -/
theorem aligned_pos (hden : 0 < den) (k : ℕ) : 0 < den * 10 ^ k := by positivity

/-- The lowest kept digit lies within `prec` digits of the leading one or at the subnormal limit. -/
theorem fraction_lt_capacity (hnum : 0 < num) (hden : 0 < den) :
    (num : ℚ) / den * (10 : ℚ) ^ exponent <
      (10 : ℚ) ^ ctx.prec * (10 : ℚ) ^ ctx.roundingExponent num den exponent := by
  refine (fraction_bounds hnum hden exponent).2.trans_le ?_
  rw [← zpow_natCast, ← zpow_add₀ (by norm_num)]
  refine zpow_le_zpow_right₀ (by norm_num) ?_
  unfold roundingExponent
  have := le_max_left (magnitude num den + exponent + 1 - ctx.prec) ctx.etiny
  omega

/-- The rounded coefficient keeps at most `prec` digits, or carries to the next power of ten. -/
theorem roundedCoefficient_le (hnum : 0 < num) (hden : 0 < den) :
    ctx.roundedCoefficient negative num den exponent ≤ 10 ^ ctx.prec := by
  have hlt : (num : ℚ) / den * (10 : ℚ) ^ exponent <
      (10 : ℚ) ^ ctx.prec * (10 : ℚ) ^ ctx.roundingExponent num den exponent := fraction_lt_capacity hnum hden
  unfold roundedCoefficient
  dsimp only
  set e := ctx.roundingExponent num den exponent
  have hd := aligned_pos hden (e - exponent).toNat
  have hp : (0 : ℚ) < (10 : ℚ) ^ e := zpow_pos (by norm_num) _
  refine ctx.rounding.quotient_le negative hd ?_
  rw [← aligned_fraction num den exponent e, mul_lt_mul_iff_left₀ hp,
    div_lt_iff₀ (by exact_mod_cast hd)] at hlt
  exact_mod_cast hlt.le

/-- A representable number is a multiple of the rounding unit, or is below the leading power of ten. -/
theorem Representable.multiple_or_small {z : ℚ} (hz : ctx.Representable z) (num den : ℕ) (exponent : ℤ) :
    (∃ k : ℤ, z = k * (10 : ℚ) ^ ctx.roundingExponent num den exponent) ∨
      (|z| < (10 : ℚ) ^ (magnitude num den + exponent) ∧
        ctx.roundingExponent num den exponent = magnitude num den + exponent + 1 - ctx.prec) := by
  obtain ⟨m, k, hm, hk, rfl⟩ := hz
  by_cases hle : ctx.roundingExponent num den exponent ≤ k
  · refine Or.inl ⟨m * 10 ^ (k - ctx.roundingExponent num den exponent).toNat, ?_⟩
    push_cast
    rw [mul_assoc, ← zpow_natCast, ← zpow_add₀ (by norm_num)]
    congr 2
    omega
  · right
    unfold roundingExponent at hle ⊢
    have hmax : max (magnitude num den + exponent + 1 - ctx.prec) ctx.etiny =
        magnitude num den + exponent + 1 - ctx.prec := by omega
    rw [hmax] at hle ⊢
    refine ⟨?_, rfl⟩
    have hp : (0 : ℚ) < (10 : ℚ) ^ k := zpow_pos (by norm_num) _
    calc |(m : ℚ) * (10 : ℚ) ^ k| = |(m : ℚ)| * (10 : ℚ) ^ k := by rw [abs_mul, abs_of_pos hp]
      _ < (10 : ℚ) ^ ctx.prec * (10 : ℚ) ^ k := mul_lt_mul_of_pos_right (by exact_mod_cast hm) hp
      _ = (10 : ℚ) ^ ((ctx.prec : ℤ) + k) := by rw [← zpow_natCast, ← zpow_add₀ (by norm_num)]
      _ ≤ (10 : ℚ) ^ (magnitude num den + exponent) :=
        zpow_le_zpow_right₀ (by norm_num) (by omega)

/-- The rounded magnitude does not cross a representable number from below. -/
theorem rounded_le_of_le {z : ℚ} (hnum : 0 < num) (hden : 0 < den) (hz : ctx.Representable z)
    (h : (num : ℚ) / den * (10 : ℚ) ^ exponent ≤ z) :
    ctx.roundedCoefficient negative num den exponent *
      (10 : ℚ) ^ ctx.roundingExponent num den exponent ≤ z := by
  have hlead := (fraction_bounds hnum hden exponent).1
  have hpos : (0 : ℚ) < z := lt_of_lt_of_le (lt_of_lt_of_le (zpow_pos (by norm_num) _) hlead) h
  rcases hz.multiple_or_small num den exponent with ⟨k, rfl⟩ | ⟨hsmall, _⟩
  · unfold roundedCoefficient
    dsimp only
    set e := ctx.roundingExponent num den exponent
    have hp : (0 : ℚ) < (10 : ℚ) ^ e := zpow_pos (by norm_num) _
    have hd := aligned_pos hden (e - exponent).toNat
    lift k to ℕ using by exact_mod_cast (pos_of_mul_pos_left hpos hp.le).le
    rw [← aligned_fraction num den exponent e, mul_le_mul_iff_left₀ hp,
      div_le_iff₀ (by exact_mod_cast hd)] at h
    rw [mul_le_mul_iff_left₀ hp]
    exact_mod_cast ctx.rounding.quotient_le negative hd (by exact_mod_cast h)
  · rw [abs_of_pos hpos] at hsmall
    exact absurd (hlead.trans h) (not_le.mpr hsmall)

/-- The rounded magnitude does not cross a representable number from above. -/
theorem le_rounded_of_le {z : ℚ} (hprec : 0 < ctx.prec) (hnum : 0 < num) (hden : 0 < den)
    (hz : ctx.Representable z) (h : z ≤ (num : ℚ) / den * (10 : ℚ) ^ exponent) :
    z ≤ ctx.roundedCoefficient negative num den exponent *
      (10 : ℚ) ^ ctx.roundingExponent num den exponent := by
  -- every multiple of the rounding unit below the exact magnitude stays below the rounded one
  have hmultiple : ∀ k : ℤ, (k : ℚ) * (10 : ℚ) ^ ctx.roundingExponent num den exponent ≤
      (num : ℚ) / den * (10 : ℚ) ^ exponent →
      (k : ℚ) * (10 : ℚ) ^ ctx.roundingExponent num den exponent ≤
        ctx.roundedCoefficient negative num den exponent *
          (10 : ℚ) ^ ctx.roundingExponent num den exponent := by
    intro k hk
    unfold roundedCoefficient
    dsimp only
    set e := ctx.roundingExponent num den exponent
    have hp : (0 : ℚ) < (10 : ℚ) ^ e := zpow_pos (by norm_num) _
    have hd := aligned_pos hden (e - exponent).toNat
    rw [mul_le_mul_iff_left₀ hp]
    rw [← aligned_fraction num den exponent e, mul_le_mul_iff_left₀ hp,
      le_div_iff₀ (by exact_mod_cast hd)] at hk
    rcases lt_or_ge k 0 with hneg | hk0
    · exact (le_of_lt (by exact_mod_cast hneg : (k : ℚ) < 0)).trans (Nat.cast_nonneg _)
    · lift k to ℕ using hk0
      exact_mod_cast ctx.rounding.le_quotient negative hd (by exact_mod_cast hk)
  rcases hz.multiple_or_small num den exponent with ⟨k, rfl⟩ | ⟨hsmall, hexp⟩
  · exact hmultiple k h
  · -- the leading power of ten is itself a multiple of the rounding unit
    have hlead := (fraction_bounds hnum hden exponent).1
    have hpow : (10 : ℚ) ^ (magnitude num den + exponent) =
        ((10 ^ (ctx.prec - 1) : ℤ) : ℚ) * (10 : ℚ) ^ ctx.roundingExponent num den exponent := by
      rw [hexp]
      push_cast
      rw [← zpow_natCast, ← zpow_add₀ (by norm_num)]
      congr 1
      omega
    calc z ≤ |z| := le_abs_self z
      _ ≤ (10 : ℚ) ^ (magnitude num den + exponent) := hsmall.le
      _ ≤ _ := by
        rw [hpow] at hlead ⊢
        exact hmultiple _ hlead

/-- A fitted nonzero magnitude is representable. -/
theorem representable_rounded (hprec : 0 < ctx.prec) (hnum : 0 < num) (hden : 0 < den) :
    ctx.Representable (ctx.roundedCoefficient negative num den exponent *
      (10 : ℚ) ^ ctx.roundingExponent num den exponent) := by
  have hle : ctx.roundedCoefficient negative num den exponent ≤ 10 ^ ctx.prec :=
    roundedCoefficient_le negative hnum hden
  have hetiny : ctx.etiny ≤ ctx.roundingExponent num den exponent := le_max_right _ _
  rcases hle.lt_or_eq with hlt | heq
  · exact ⟨_, _, by rw [Nat.abs_cast]; exact_mod_cast hlt, hetiny, by push_cast; rfl⟩
  · refine ⟨10 ^ (ctx.prec - 1), ctx.roundingExponent num den exponent + 1, ?_, by omega, ?_⟩
    · rw [abs_of_nonneg (by positivity)]
      exact pow_lt_pow_right₀ (by norm_num) (by omega)
    · rw [heq, zpow_add_one₀ (by norm_num)]
      push_cast
      rw [mul_comm _ (10 : ℚ), ← mul_assoc, ← pow_succ, Nat.sub_add_cancel hprec]

/-- Rounding toward minus infinity stays below a signed exact result. -/
theorem floor_rounded (hden : 0 < den) (hmode : ctx.rounding = .floor) :
    signFactor negative * (ctx.roundedCoefficient negative num den exponent *
      (10 : ℚ) ^ ctx.roundingExponent num den exponent) ≤
      signFactor negative * (num / den * (10 : ℚ) ^ exponent) := by
  unfold roundedCoefficient
  dsimp only
  set e := ctx.roundingExponent num den exponent
  have hp : (0 : ℚ) < (10 : ℚ) ^ e := zpow_pos (by norm_num) _
  have hd := aligned_pos hden (e - exponent).toNat
  have hdq : (0 : ℚ) < (den * 10 ^ (e - exponent).toNat : ℕ) := by exact_mod_cast hd
  rw [← aligned_fraction num den exponent e]
  cases negative
  · simp only [signFactor, Bool.false_eq_true, if_false, one_mul]
    rw [mul_le_mul_iff_left₀ hp, le_div_iff₀ hdq]
    exact_mod_cast Rounding.quotient_mul_le (Or.inl ⟨hmode, rfl⟩)
  · simp only [signFactor, if_true, neg_one_mul, neg_le_neg_iff]
    rw [mul_le_mul_iff_left₀ hp, div_le_iff₀ hdq]
    exact_mod_cast Rounding.le_quotient_mul hd (Or.inl ⟨hmode, rfl⟩)

/-- Rounding toward plus infinity stays above a signed exact result. -/
theorem ceiling_rounded (hden : 0 < den) (hmode : ctx.rounding = .ceiling) :
    signFactor negative * (num / den * (10 : ℚ) ^ exponent) ≤
      signFactor negative * (ctx.roundedCoefficient negative num den exponent *
        (10 : ℚ) ^ ctx.roundingExponent num den exponent) := by
  unfold roundedCoefficient
  dsimp only
  set e := ctx.roundingExponent num den exponent
  have hp : (0 : ℚ) < (10 : ℚ) ^ e := zpow_pos (by norm_num) _
  have hd := aligned_pos hden (e - exponent).toNat
  have hdq : (0 : ℚ) < (den * 10 ^ (e - exponent).toNat : ℕ) := by exact_mod_cast hd
  rw [← aligned_fraction num den exponent e]
  cases negative
  · simp only [signFactor, Bool.false_eq_true, if_false, one_mul]
    rw [mul_le_mul_iff_left₀ hp, div_le_iff₀ hdq]
    exact_mod_cast Rounding.le_quotient_mul hd (Or.inr ⟨hmode, rfl⟩)
  · simp only [signFactor, if_true, neg_one_mul, neg_le_neg_iff]
    rw [mul_le_mul_iff_left₀ hp, le_div_iff₀ hdq]
    exact_mod_cast Rounding.quotient_mul_le (Or.inr ⟨hmode, rfl⟩)

/-- A fitted result rounds its exact result. -/
theorem finish_rounds {r : Decimal} (hprec : 0 < ctx.prec) (hden : 0 < den)
    (h : ctx.finish negative num den exponent = .ok r) :
    ctx.Rounds (signFactor negative * (num / den * (10 : ℚ) ^ exponent)) r := by
  by_cases hzero : num = 0
  · subst hzero
    have hr : r.value = 0 := by
      simp only [finish, if_true, Except.ok.injEq] at h
      rw [← h, value_eq_signFactor]
      simp
    constructor
    · simp [hr]
    · simp [hr]
    · intro z _ hle
      simpa [hr] using hle
    · intro z _ hle
      simpa [hr] using hle
    · rw [hr]
      exact ctx.representable_zero
  · have hnum : 0 < num := Nat.pos_of_ne_zero hzero
    have hr := value_finish negative hprec hzero h
    constructor
    · intro hmode
      rw [hr]
      exact floor_rounded negative hden hmode
    · intro hmode
      rw [hr]
      exact ceiling_rounded negative hden hmode
    · intro z hz hle
      rw [hr]
      cases negative
      · simp only [signFactor, Bool.false_eq_true, if_false, one_mul] at hle ⊢
        exact rounded_le_of_le false hnum hden hz hle
      · simp only [signFactor, if_true, neg_one_mul] at hle ⊢
        exact neg_le.mp (le_rounded_of_le true hprec hnum hden hz.neg (neg_le.mp hle))
    · intro z hz hle
      rw [hr]
      cases negative
      · simp only [signFactor, Bool.false_eq_true, if_false, one_mul] at hle ⊢
        exact le_rounded_of_le false hprec hnum hden hz hle
      · simp only [signFactor, if_true, neg_one_mul] at hle ⊢
        exact le_neg.mp (rounded_le_of_le true hnum hden hz.neg (le_neg.mp hle))
    · rw [hr]
      have hrep : ctx.Representable (ctx.roundedCoefficient negative num den exponent *
          (10 : ℚ) ^ ctx.roundingExponent num den exponent) := representable_rounded negative hprec hnum hden
      cases negative
      · simpa [signFactor] using hrep
      · simpa [signFactor] using hrep.neg

end Fitted

end Context

end DecimalArithmetic
