import EquityEval.Arithmetic.Signals

/-!
# Operations that lose no digits

A context that traps lost digits returns a result exactly when it has room for every digit of it.
These lemmas give the result: where the exact value is representable and within the exponent range,
the operation returns it.
-/

namespace DecimalArithmetic

namespace Context

variable {ctx : Context} {traps : Traps} {a b : Decimal} {num : ℕ} {exponent : ℤ} {negative : Bool}

/-- A context that represents a value rounds it at none of its digits. -/
theorem roundingExponent_le {m : ℕ} {k : ℤ} (hnum : 0 < num) (hm : m < 10 ^ ctx.prec) (hk : ctx.etiny ≤ k)
    (hvalue : (num : ℚ) * (10 : ℚ) ^ exponent = m * (10 : ℚ) ^ k) : ctx.roundingExponent num 1 exponent ≤ k := by
  have hlead := (fraction_bounds hnum Nat.one_pos exponent).1
  rw [Nat.cast_one, div_one, hvalue] at hlead
  have hroom : (m : ℚ) * (10 : ℚ) ^ k < (10 : ℚ) ^ ((ctx.prec : ℤ) + k) := by
    rw [zpow_add₀ (by norm_num), zpow_natCast]
    exact mul_lt_mul_of_pos_right (by exact_mod_cast hm) (zpow_pos (by norm_num) _)
  have hlt : magnitude num 1 + exponent < ctx.prec + k := (zpow_lt_zpow_iff_right₀ (by norm_num)).mp (hlead.trans_lt hroom)
  exact max_le (by omega) hk

/-- A value that the context represents loses no digits. -/
theorem not_inexact_of_representable (h : ctx.Representable ((num : ℚ) * (10 : ℚ) ^ exponent)) :
    ¬ ctx.Inexact num 1 exponent := by
  obtain ⟨m, k, hm, hk, hvalue⟩ := h
  unfold Inexact
  dsimp only
  rw [not_not, one_mul]
  rcases Nat.eq_zero_or_pos num with rfl | hnum
  · rw [Nat.zero_mul, Nat.zero_mod]
  have hpos : (0 : ℚ) < (10 : ℚ) ^ k := zpow_pos (by norm_num) _
  have hleft : (0 : ℚ) < (num : ℚ) * (10 : ℚ) ^ exponent :=
    mul_pos (by exact_mod_cast hnum) (zpow_pos (by norm_num) _)
  lift m to ℕ using by exact_mod_cast (pos_of_mul_pos_left (hvalue ▸ hleft) hpos.le).le
  rw [Nat.abs_cast] at hm
  have hle := roundingExponent_le hnum (by exact_mod_cast hm) hk (by exact_mod_cast hvalue)
  generalize ctx.roundingExponent num 1 exponent = e at hle ⊢
  rcases le_total e exponent with he | he
  · rw [show (e - exponent).toNat = 0 by omega, pow_zero, Nat.mod_one]
  -- the value ends at least where it is rounded
  · have hnat : num = m * 10 ^ (k - exponent).toNat := by
      have hten : (10 : ℚ) ^ k = (10 : ℚ) ^ (k - exponent).toNat * (10 : ℚ) ^ exponent := by
        rw [← zpow_natCast, ← zpow_add₀ (by norm_num)]
        congr 1
        omega
      rw [hten, ← mul_assoc] at hvalue
      exact_mod_cast mul_right_cancel₀ (zpow_ne_zero _ (by norm_num)) hvalue
    rw [show (exponent - e).toNat = 0 by omega, pow_zero, mul_one, hnat]
    exact Nat.mod_eq_zero_of_dvd (Dvd.dvd.mul_left (pow_dvd_pow _ (by omega)) _)

/-- A representable value within the exponent range is returned. -/
theorem settle_of_representable (hsubnormal : traps.subnormal = false) (hprec : 0 < ctx.prec)
    (h : ctx.Representable ((num : ℚ) * (10 : ℚ) ^ exponent))
    (hrange : (num : ℚ) * (10 : ℚ) ^ exponent < (10 : ℚ) ^ (ctx.Emax + 1)) :
    ∃ r, ctx.settle traps negative num 1 exponent = some r ∧ r.value = signFactor negative * (num * (10 : ℚ) ^ exponent) := by
  have hexact := not_inexact_of_representable h
  have hfinish : ∃ r, ctx.finish negative num 1 exponent = .ok r := by
    unfold finish
    split
    · exact ⟨_, rfl⟩
    · rename_i hnum
      have hlead := (fraction_bounds (Nat.pos_of_ne_zero hnum) Nat.one_pos exponent).1
      rw [Nat.cast_one, div_one] at hlead
      have hlt := (zpow_lt_zpow_iff_right₀ (by norm_num)).mp (hlead.trans_lt hrange)
      rw [if_neg (by omega)]
      dsimp only
      rw [if_pos (not_not.mp hexact)]
      exact ⟨_, rfl⟩
  obtain ⟨r, hr⟩ := hfinish
  refine ⟨r, ?_, ?_⟩
  · rw [settle, if_neg, hr]
    · rfl
    · rintro (⟨-, hinexact⟩ | ⟨htrap, -⟩)
      · exact hexact hinexact
      · rw [hsubnormal] at htrap
        cases htrap
  · rw [value_finish_of_exact hprec Nat.one_pos hexact hr, Nat.cast_one, div_one]

/-- The magnitude of a representable value is representable. -/
theorem Representable.abs {z : ℚ} (h : ctx.Representable z) : ctx.Representable |z| := by
  rcases abs_choice z with habs | habs <;> rw [habs]
  · exact h
  · exact h.neg

/-- A representable sum within the exponent range is returned. -/
theorem add?_of_representable (hsubnormal : traps.subnormal = false) (hprec : 0 < ctx.prec)
    (h : ctx.Representable (a.value + b.value)) (hrange : |a.value + b.value| < (10 : ℚ) ^ (ctx.Emax + 1)) :
    ∃ r, ctx.add? traps a b = some r ∧ r.value = a.value + b.value := by
  have hpos : (0 : ℚ) < (10 : ℚ) ^ min a.exponent b.exponent := zpow_pos (by norm_num) _
  have hsum : ((a.scaled (min a.exponent b.exponent) + b.scaled (min a.exponent b.exponent) : ℤ) : ℚ) *
      (10 : ℚ) ^ min a.exponent b.exponent = a.value + b.value := by
    push_cast
    rw [add_mul, a.scaled_mul_zpow (min_le_left _ _), b.scaled_mul_zpow (min_le_right _ _)]
  have habs : ((a.scaled (min a.exponent b.exponent) + b.scaled (min a.exponent b.exponent)).natAbs : ℚ) *
      (10 : ℚ) ^ min a.exponent b.exponent = |a.value + b.value| := by
    rw [← hsum, abs_mul, abs_of_pos hpos, Nat.cast_natAbs, Int.cast_abs]
  obtain ⟨r, hr, hvalue⟩ := settle_of_representable hsubnormal hprec (habs ▸ h.abs) (habs ▸ hrange)
  refine ⟨r, hr, ?_⟩
  rw [hvalue, ← mul_assoc, signFactor_mul_natAbs (fun hne => by rw [if_neg hne]), hsum]

/-- A running sum is returned when all its partial sums are representable and within the exponent range. -/
theorem foldlM_add?_of_representable (hsubnormal : traps.subnormal = false) (hprec : 0 < ctx.prec) {terms : List Decimal}
    (h : ∀ n ≤ terms.length, ctx.Representable (a.value + ((terms.take n).map Decimal.value).sum) ∧
      |a.value + ((terms.take n).map Decimal.value).sum| < (10 : ℚ) ^ (ctx.Emax + 1)) :
    ∃ r, terms.foldlM (ctx.add? traps) a = some r := by
  induction terms generalizing a with
  | nil => exact ⟨a, rfl⟩
  | cons term terms ih =>
    have hfirst := h 1 (by simp)
    simp only [List.take_succ_cons, List.take_zero, List.map_cons, List.map_nil, List.sum_cons, List.sum_nil, add_zero] at hfirst
    obtain ⟨next, hnext, hvalue⟩ := add?_of_representable hsubnormal hprec hfirst.1 hfirst.2
    have hrest : ∃ r, terms.foldlM (ctx.add? traps) next = some r := by
      refine ih fun n hn => ?_
      have hstep := h (n + 1) (Nat.succ_le_succ hn)
      rwa [List.take_succ_cons, List.map_cons, List.sum_cons, ← add_assoc, ← hvalue] at hstep
    obtain ⟨r, hr⟩ := hrest
    exact ⟨r, by rw [List.foldlM_cons, hnext, Option.bind_eq_bind, Option.bind_some, hr]⟩

/-- A representable difference within the exponent range is returned. -/
theorem sub?_of_representable (hsubnormal : traps.subnormal = false) (hprec : 0 < ctx.prec)
    (h : ctx.Representable (a.value - b.value)) (hrange : |a.value - b.value| < (10 : ℚ) ^ (ctx.Emax + 1)) :
    ∃ r, ctx.sub? traps a b = some r ∧ r.value = a.value - b.value := by
  rw [sub_eq_add_neg, ← Decimal.value_copyNegate] at h hrange ⊢
  exact add?_of_representable hsubnormal hprec h hrange

/-- A representable product within the exponent range is returned. -/
theorem mul?_of_representable (hsubnormal : traps.subnormal = false) (hprec : 0 < ctx.prec)
    (h : ctx.Representable (a.value * b.value)) (hrange : |a.value * b.value| < (10 : ℚ) ^ (ctx.Emax + 1)) :
    ∃ r, ctx.mul? traps a b = some r ∧ r.value = a.value * b.value := by
  have habs : ((a.coefficient * b.coefficient : ℕ) : ℚ) * (10 : ℚ) ^ (a.exponent + b.exponent) = |a.value * b.value| := by
    rw [abs_mul, a.abs_value, b.abs_value, zpow_add₀ (by norm_num)]
    push_cast
    ring
  obtain ⟨r, hr, hvalue⟩ := settle_of_representable hsubnormal hprec (habs ▸ h.abs) (habs ▸ hrange)
  refine ⟨r, hr, ?_⟩
  rw [hvalue, value_eq a, value_eq b, signFactor_xor, zpow_add₀ (by norm_num)]
  push_cast
  ring

/-- A context represents what ends at an exponent and is no longer than its precision from there. -/
theorem representable_of_lt {z : ℚ} {m : ℤ} {k top : ℤ} (hk : ctx.etiny ≤ k) (hz : z = m * (10 : ℚ) ^ k)
    (htop : |z| < (10 : ℚ) ^ top) (hprec : top ≤ k + ctx.prec) : ctx.Representable z := by
  refine ⟨m, k, ?_, hk, hz⟩
  have hpos : (0 : ℚ) < (10 : ℚ) ^ k := zpow_pos (by norm_num) _
  have hle : (10 : ℚ) ^ top ≤ (10 : ℚ) ^ (k + ctx.prec) := zpow_le_zpow_right₀ (by norm_num) hprec
  rw [zpow_add₀ (by norm_num), mul_comm, zpow_natCast] at hle
  rw [hz, abs_mul, abs_of_pos hpos] at htop
  exact_mod_cast lt_of_mul_lt_mul_right (htop.trans_le hle) hpos.le

end Context

/-- The value of a decimal lies below the power of ten after its leading digit. -/
theorem Decimal.abs_value_lt (d : Decimal) : |d.value| < (10 : ℚ) ^ (d.adjusted + 1) := by
  have hdigits : (d.coefficient : ℚ) < (10 : ℚ) ^ d.digits := by exact_mod_cast d.coefficient_lt
  rw [d.abs_value, Decimal.adjusted, show d.exponent + d.digits - 1 + 1 = (d.digits : ℤ) + d.exponent by ring,
    zpow_add₀ (by norm_num), zpow_natCast]
  exact mul_lt_mul_of_pos_right hdigits (zpow_pos (by norm_num) _)

/-- A decimal is a whole multiple of a smaller power of ten. -/
theorem Decimal.exists_scaled (d : Decimal) {k : ℤ} (hk : k ≤ d.exponent) : ∃ m : ℤ, d.value = m * (10 : ℚ) ^ k :=
  ⟨d.scaled k, (d.scaled_mul_zpow hk).symm⟩

end DecimalArithmetic
